import Mathlib.Data.List.Induction
import TypeNotation.Proofs.Token.Boundary

/-!
# Brackets that nest

Scanning keeps the open brackets on a stack while it makes the tokens.  What it accepts by this is
what is well nested: the sequences that are put together of an opening bracket, a well nested
sequence and the bracket which closes that one.  Where brackets are not well nested, the error is at
the first closing one that does not close the innermost open one, and if there is none, at the
innermost one that stays open.
-/

namespace TypeNotation

/-! ## Well nested sequences -/

namespace Token

/-- Whether a token opens a bracket. -/
def isOpener (t : Token) : Bool :=
  match t.kind with
  | .mark p => p.closer?.isSome
  | _ => false

/-- Whether a token closes a bracket. -/
def isCloser (t : Token) : Bool :=
  match t.kind with
  | .mark p => p.isCloser
  | _ => false

/-- One bracket is closed by another. -/
def Matches (o c : Token) : Prop :=
  ∃ p q, o.kind = .mark p ∧ c.kind = .mark q ∧ p.closer? = some q

lemma Matches.isOpener {o c : Token} (h : o.Matches c) : o.isOpener = true := by
  obtain ⟨p, q, ho, -, hpq⟩ := h
  rw [Token.isOpener, ho]
  exact Option.isSome_of_eq_some hpq

lemma exists_of_isOpener {o : Token} (h : o.isOpener = true) :
    ∃ p q, o.kind = .mark p ∧ p.closer? = some q := by
  unfold isOpener at h
  split at h
  · rename_i p hp
    exact ⟨p, _, hp, Option.eq_some_of_isSome h⟩
  · cases h

lemma exists_of_isCloser {c : Token} (h : c.isCloser = true) :
    ∃ q, c.kind = .mark q ∧ q.closer? = none ∧ q.isCloser = true := by
  unfold isCloser at h
  split at h
  · rename_i q hq
    refine ⟨q, hq, ?_, h⟩
    cases q <;> first | rfl | exact absurd h (by decide)
  · cases h

/-- Whether a token is a bracket. -/
def isBracket (t : Token) : Bool :=
  t.isOpener || t.isCloser

end Token

/-- The brackets among tokens. -/
def brackets (ts : List Token) : List Token :=
  ts.filter (·.isBracket)

/-- Brackets that are closed in the order opposite to that in which they are opened. -/
inductive Nested : List Token → Prop
  | nil : Nested []
  | enclosed {o c : Token} {inside after : List Token} :
      o.Matches c → Nested inside → Nested after → Nested (o :: (inside ++ c :: after))

lemma Nested.append {xs ys : List Token} (hx : Nested xs) (hy : Nested ys) :
    Nested (xs ++ ys) := by
  induction hx with
  | nil => exact hy
  | enclosed matches_ inside _ _ after =>
    rw [List.cons_append, List.append_assoc]
    exact .enclosed matches_ inside after

/-- The innermost of the brackets that stay open. -/
def Innermost (bs : List Token) (o : Token) : Prop :=
  o.isOpener ∧ ∃ before inside, bs = before ++ o :: inside ∧ Nested inside

/-- A closing bracket that does not close the innermost one open before it. -/
def Misplaced (before : List Token) (c : Token) : Prop :=
  c.isCloser ∧ ∀ o, Innermost before o → ¬ o.Matches c

/-- Where brackets are at fault. -/
inductive FaultAt (bs : List Token) : Position → Prop
  | closing {before : List Token} {c : Token} {after : List Token} :
      bs = before ++ c :: after → Misplaced before c →
      (∀ pre b post, before = pre ++ b :: post → ¬ Misplaced pre b) → FaultAt bs c.position
  | opening {o : Token} :
      (∀ pre b post, bs = pre ++ b :: post → ¬ Misplaced pre b) → Innermost bs o →
      FaultAt bs o.position

/-! ## The stack of open brackets -/

namespace OpenBracket

/-- Account for a token in the open brackets. -/
def read (stack : List OpenBracket) (t : Token) : Except SyntaxError (List OpenBracket) :=
  match t.kind with
  | .mark p => step stack t.position p
  | _ => .ok stack

/-- Account for tokens one after the other. -/
def through (stack : List OpenBracket) (ts : List Token) : Except SyntaxError (List OpenBracket) :=
  ts.foldlM read stack

/-- The open bracket that an opening one makes. -/
def IsOf (b : OpenBracket) (o : Token) : Prop :=
  o.kind = .mark b.opener ∧ b.opener.closer? = some b.closer ∧ b.position = o.position

variable {stack : List OpenBracket} {t o c : Token} {ts us : List Token}

lemma through_cons : through stack (t :: ts) = read stack t >>= fun st => through st ts :=
  List.foldlM_cons

lemma through_append :
    through stack (ts ++ us) = through stack ts >>= fun st => through st us :=
  List.foldlM_append

lemma through_singleton : through stack [t] = read stack t := by
  rw [through_cons]
  cases read stack t <;> rfl

lemma read_opener (h : o.isOpener = true) :
    ∃ b : OpenBracket, b.IsOf o ∧ ∀ stack, read stack o = .ok (b :: stack) := by
  obtain ⟨p, q, ho, hpq⟩ := Token.exists_of_isOpener h
  refine ⟨⟨p, q, o.position⟩, ⟨ho, hpq, rfl⟩, fun stack => ?_⟩
  simp [read, ho, step, hpq]

lemma IsOf.matches_iff {b : OpenBracket} (h : b.IsOf o) :
    o.Matches c ↔ c.kind = .mark b.closer := by
  obtain ⟨kind, closer, -⟩ := h
  constructor
  · rintro ⟨p, q, ho, hc, hpq⟩
    cases kind.symm.trans ho
    rwa [← Option.some.inj (closer.symm.trans hpq)] at hc
  · exact fun hc => ⟨_, _, kind, hc, closer⟩

lemma isCloser_of_closer? {p q : Punctuation} (h : p.closer? = some q) :
    q.closer? = none ∧ q.isCloser = true := by
  cases p <;> cases h <;> exact ⟨rfl, rfl⟩

/-- A closing bracket takes the open bracket away that it matches. -/
lemma read_matching {b : OpenBracket} (h : b.IsOf o) (hc : o.Matches c) :
    read (b :: stack) c = .ok stack := by
  have kind := h.matches_iff.1 hc
  obtain ⟨none, closes⟩ := isCloser_of_closer? h.2.1
  simp [read, kind, step, none, closes]

/-- A closing bracket is accepted only if it matches the innermost open one. -/
lemma read_closer {stack' : List OpenBracket} (hc : c.isCloser = true)
    (h : read stack c = .ok stack') : ∃ b, stack = b :: stack' ∧ c.kind = .mark b.closer := by
  obtain ⟨q, kind, none, closes⟩ := Token.exists_of_isCloser hc
  simp only [read, kind, step, none, closes, if_true] at h
  split at h
  · cases h
  · split at h
    · rename_i same
      cases h
      exact ⟨_, rfl, same ▸ kind⟩
    · cases h

lemma read_other (h : t.isBracket = false) : read stack t = .ok stack := by
  obtain ⟨opens, closes⟩ := Bool.or_eq_false_iff.1 h
  unfold read
  split
  · rename_i p kind
    rw [Token.isOpener, kind] at opens
    rw [Token.isCloser, kind] at closes
    simp [step, Option.isNone_iff_eq_none.1 (Option.isSome_eq_false_iff.1 opens), closes]
  · rfl

lemma error_read {e : SyntaxError} (h : read stack t = .error e) :
    t.isCloser ∧ ∃ expected found, e = .bracketMismatch t.position expected found := by
  unfold read at h
  split at h
  · rename_i p kind
    unfold step at h
    split at h
    · cases h
    split at h
    · rename_i closes
      refine ⟨by rw [Token.isCloser, kind]; exact closes, ?_⟩
      split at h
      · cases h
        exact ⟨_, _, rfl⟩
      · split at h <;> cases h
        exact ⟨_, _, rfl⟩
    · cases h
  · cases h

/-- Only the brackets among the tokens count. -/
lemma through_brackets (stack : List OpenBracket) (ts : List Token) :
    through stack (brackets ts) = through stack ts := by
  induction ts generalizing stack with
  | nil => rfl
  | cons t ts ih =>
    cases bracket : t.isBracket with
    | true =>
      rw [brackets, List.filter_cons_of_pos bracket, through_cons, through_cons]
      exact congrArg _ (funext ih)
    | false =>
      rw [brackets, List.filter_cons_of_neg (by simp [bracket]), through_cons, read_other bracket]
      exact ih stack

/-- What is well nested leaves the stack as it was. -/
lemma through_nested {bs : List Token} (h : Nested bs) (stack : List OpenBracket) :
    through stack bs = .ok stack := by
  induction h generalizing stack with
  | nil => rfl
  | @enclosed o c inside after matches_ _ _ ihInside ihAfter =>
    obtain ⟨b, hb, opens⟩ := read_opener matches_.isOpener
    calc through stack (o :: (inside ++ c :: after))
        = through (b :: stack) (inside ++ c :: after) := by rw [through_cons, opens]; rfl
      _ = through (b :: stack) (c :: after) := by rw [through_append, ihInside]; rfl
      _ = through stack after := by rw [through_cons, read_matching hb matches_]; rfl
      _ = .ok stack := ihAfter stack

end OpenBracket

/-! ## What stays open -/

/-- Brackets that leave those of a stack open. -/
inductive LeavesOpen : List Token → List OpenBracket → Prop
  | nested {bs : List Token} : Nested bs → LeavesOpen bs []
  | opened {bs inside : List Token} {stack : List OpenBracket} {o : Token} {b : OpenBracket} :
      LeavesOpen bs stack → b.IsOf o → Nested inside → LeavesOpen (bs ++ o :: inside) (b :: stack)

namespace LeavesOpen

open OpenBracket (through)

variable {bs : List Token} {stack : List OpenBracket}

lemma append (h : LeavesOpen bs stack) {more : List Token} (hm : Nested more) :
    LeavesOpen (bs ++ more) stack := by
  cases h with
  | nested h => exact .nested (h.append hm)
  | opened h hb inside =>
    rw [List.append_assoc, List.cons_append]
    exact .opened h hb (inside.append hm)

lemma through_eq (h : LeavesOpen bs stack) : through [] bs = .ok stack := by
  induction h with
  | nested h => exact OpenBracket.through_nested h []
  | @opened bs inside stack o b _ hb hi ih =>
    have pushed : OpenBracket.read stack o = .ok (b :: stack) := by
      simp [OpenBracket.read, OpenBracket.step, hb.1, hb.2.1, ← hb.2.2]
    rw [OpenBracket.through_append, ih]
    change through stack (o :: inside) = _
    rw [OpenBracket.through_cons, pushed]
    exact OpenBracket.through_nested hi _

/-- The stack is what stays open.  The induction takes the last bracket off: an opening one comes
to stand on top, and a closing one takes the top away together with what stands inside. -/
lemma of_through (all : ∀ t ∈ bs, t.isBracket) (h : through [] bs = .ok stack) :
    LeavesOpen bs stack := by
  induction bs using List.reverseRecOn generalizing stack with
  | nil =>
    cases h
    exact .nested .nil
  | append_singleton bs t ih =>
    rw [List.forall_mem_append] at all
    rw [OpenBracket.through_append] at h
    obtain ⟨before, hbefore, h⟩ := bind_eq_ok.1 h
    rw [OpenBracket.through_singleton] at h
    have opened := ih all.1 hbefore
    cases opens : t.isOpener with
    | true =>
      obtain ⟨b, hb, pushed⟩ := OpenBracket.read_opener opens
      cases (pushed before).symm.trans h
      exact .opened opened hb .nil
    | false =>
      have closes : t.isCloser = true := by
        simpa [Token.isBracket, opens] using all.2 t List.mem_cons_self
      obtain ⟨b, rfl, kind⟩ := OpenBracket.read_closer closes h
      cases opened with
      | opened outer hb inside =>
        rw [List.append_assoc, List.cons_append]
        exact outer.append (.enclosed (hb.matches_iff.2 kind) inside .nil)

lemma isOf_of_innermost (h : LeavesOpen bs stack) {o : Token} (ho : Innermost bs o) :
    ∃ b outer, stack = b :: outer ∧ b.IsOf o := by
  obtain ⟨opens, before, inside, rfl, nested⟩ := ho
  obtain ⟨b, hb, pushed⟩ := OpenBracket.read_opener opens
  have run := h.through_eq
  rw [OpenBracket.through_append] at run
  obtain ⟨outer, -, run⟩ := bind_eq_ok.1 run
  rw [OpenBracket.through_cons, pushed] at run
  exact ⟨b, outer, Except.ok.inj (run.symm.trans (OpenBracket.through_nested nested _)), hb⟩

lemma innermost {b : OpenBracket} (h : LeavesOpen bs (b :: stack)) :
    ∃ o, Innermost bs o ∧ b.IsOf o := by
  cases h with
  | opened _ hb inside =>
    refine ⟨_, ⟨?_, _, _, rfl, inside⟩, hb⟩
    rw [Token.isOpener, hb.1]
    exact Option.isSome_of_eq_some hb.2.1

lemma nested_of_nil (h : LeavesOpen bs []) : Nested bs := by
  cases h with
  | nested h => exact h

end LeavesOpen

/-! ## Where the stack is refused -/

section Faults

open OpenBracket (through)

variable {bs : List Token}

lemma nested_iff_through (all : ∀ t ∈ bs, t.isBracket) : Nested bs ↔ through [] bs = .ok [] :=
  ⟨fun h => OpenBracket.through_nested h [], fun h => (LeavesOpen.of_through all h).nested_of_nil⟩

/-- Where all brackets are accepted, none is misplaced. -/
lemma not_misplaced_of_through (all : ∀ t ∈ bs, t.isBracket) {stack : List OpenBracket}
    (h : through [] bs = .ok stack) (pre : List Token) (t : Token) (post : List Token)
    (split : bs = pre ++ t :: post) : ¬ Misplaced pre t := by
  rintro ⟨closes, unmatched⟩
  subst split
  rw [OpenBracket.through_append] at h
  obtain ⟨before, hbefore, h⟩ := bind_eq_ok.1 h
  rw [OpenBracket.through_cons] at h
  obtain ⟨after, hread, -⟩ := bind_eq_ok.1 h
  obtain ⟨b, rfl, kind⟩ := OpenBracket.read_closer closes hread
  obtain ⟨o, ho, hb⟩ :=
    (LeavesOpen.of_through (fun u hu => all u (List.mem_append_left _ hu)) hbefore).innermost
  exact unmatched o ho (hb.matches_iff.2 kind)

/-- Where a bracket is refused, it is the first that is misplaced. -/
lemma faultAt_of_through_error (all : ∀ t ∈ bs, t.isBracket) {e : SyntaxError}
    (h : through [] bs = .error e) :
    ∃ p expected found, e = .bracketMismatch p expected found ∧ FaultAt bs p ∧ ¬ Nested bs := by
  have unnested : ¬ Nested bs := fun nested => by
    rw [OpenBracket.through_nested nested] at h
    cases h
  suffices ∃ before c after, bs = before ++ c :: after ∧ Misplaced before c ∧
      (∃ stack, through [] before = .ok stack) ∧
      ∃ expected found, e = .bracketMismatch c.position expected found by
    obtain ⟨before, c, after, rfl, misplaced, ⟨stack, accepted⟩, expected, found, rfl⟩ := this
    refine ⟨_, _, _, rfl, .closing rfl misplaced ?_, unnested⟩
    exact not_misplaced_of_through (fun u hu => all u (List.mem_append_left _ hu)) accepted
  clear unnested
  induction bs using List.reverseRecOn with
  | nil => cases h
  | append_singleton bs t ih =>
    rw [List.forall_mem_append] at all
    rw [OpenBracket.through_append] at h
    rcases bind_eq_error.1 h with h | ⟨stack, accepted, h⟩
    · obtain ⟨before, c, after, rfl, found⟩ := ih all.1 h
      exact ⟨before, c, after ++ [t], by simp, found⟩
    · rw [OpenBracket.through_singleton] at h
      obtain ⟨closes, expected, found, rfl⟩ := OpenBracket.error_read h
      refine ⟨bs, t, [], rfl, ⟨closes, fun o ho matches_ => ?_⟩, ⟨stack, accepted⟩, expected, found,
        rfl⟩
      obtain ⟨b, outer, rfl, hb⟩ := (LeavesOpen.of_through all.1 accepted).isOf_of_innermost ho
      rw [OpenBracket.read_matching hb matches_] at h
      cases h

end Faults

/-! ## The tokens of a text whose brackets are not checked -/

/-- Take note of a lexeme, where a closing bracket that matches no open one changes nothing. -/
def ScanState.pass (s : ScanState) (lexeme : Lexeme) (token : Option Token) : ScanState :=
  match s.note lexeme token with
  | .ok s' => s'
  | .error _ => { s with afterOperand := true }

/-- The tokens from a state on, up to the first character where there is no lexeme. -/
def lexedFrom : List Char → Nat → ScanState → List Token
  | [], _, _ => []
  | c :: rest, skip + 1, s => lexedFrom rest skip (s.past c)
  | c :: rest, 0, s =>
    match Lexeme.at_ s.position s.afterOperand c rest with
    | .error _ => []
    | .ok lexeme =>
      let token := lexeme.token? s.position s.breakCounts
      token.toList ++ lexedFrom rest (lexeme.length - 1) ((s.pass lexeme token).past c)

/-- The tokens of a text, all line breaks that are not inside brackets included. -/
def lexed (text : String) : List Token :=
  lexedFrom text.toList 0 .start

lemma read_token? (s : ScanState) (l : Lexeme) :
    OpenBracket.through s.brackets (l.token? s.position s.breakCounts).toList =
      (s.note l (l.token? s.position s.breakCounts)).map (·.brackets) := by
  cases l with
  | lineBreak => cases h : s.breakCounts <;> rfl
  | blank | comment => rfl
  | word cs =>
    have plain (p : Punctuation) : Lexeme.wordKind cs ≠ .mark p := by
      unfold Lexeme.wordKind
      split
      · nofun
      · split <;> nofun
    rw [Lexeme.token?, Option.toList_some, OpenBracket.through_singleton, OpenBracket.read]
    dsimp only
    split
    · rename_i p kind
      exact absurd kind (plain p)
    · rfl
  | number => rfl
  | mark p =>
    rw [Lexeme.token?, Option.toList_some, OpenBracket.through_singleton]
    change OpenBracket.step _ _ _ = _
    cases h : OpenBracket.step s.brackets s.position p <;> simp [ScanState.note, h] <;> rfl

/-- An error is about brackets. -/
def SyntaxError.IsMismatch (e : SyntaxError) : Prop :=
  ∃ p expected found, e = .bracketMismatch p expected found

namespace Lexeme

lemma not_isMismatch_numberAt {p : Position} {sign : Option Char} {cs : List Char}
    {e : SyntaxError} (h : numberAt p sign cs = .error e) : ¬ e.IsMismatch := by
  rintro ⟨q, expected, found, rfl⟩
  have refused {b : Bool} {e : SyntaxError} {x : Except SyntaxError Lexeme}
      (other : ∀ q expected found, e ≠ .bracketMismatch q expected found)
      (h : (if b = true then .error e else x) = .error (.bracketMismatch q expected found)) :
      x = .error (.bracketMismatch q expected found) := by
    cases b
    · exact h
    · cases h
      exact absurd rfl (other q expected found)
  unfold numberAt at h
  split at h
  · cases h
  replace h := refused (by simp) (refused (by simp) h)
  split at h <;> cases h

lemma not_isMismatch_at_ {p : Position} {afterOperand : Bool} {c : Char} {cs : List Char}
    {e : SyntaxError} (h : at_ p afterOperand c cs = .error e) : ¬ e.IsMismatch := by
  unfold at_ at h
  split at h
  · cases h
  split at h
  · cases h
  split at h
  · cases h
  split at h
  · cases h
  split at h
  · exact not_isMismatch_numberAt h
  split at h
  · exact not_isMismatch_numberAt h
  split at h
  · cases h
  rintro ⟨q, expected, found, rfl⟩
  split at h <;> cases h

end Lexeme

/-- Where the only errors are about brackets, scanning makes the tokens and then looks at the
brackets among them, and at what they leave open. -/
lemma scanFrom_lexed {cs : List Char} {skip : Nat} {s : ScanState}
    (only : ∀ e, scanFrom cs skip s = .error e → e.IsMismatch) :
    ∃ p, scanFrom cs skip s = do
      let stack ← OpenBracket.through s.brackets (lexedFrom cs skip s)
      let closing ← ScanState.close ⟨p, stack, false⟩
      return lexedFrom cs skip s ++ closing := by
  induction cs generalizing skip s with
  | nil =>
    refine ⟨s.position, ?_⟩
    change s.close = ScanState.close ⟨s.position, s.brackets, false⟩ >>= fun closing => .ok closing
    exact (bind_pure (ScanState.close ⟨s.position, s.brackets, false⟩)).symm
  | cons c cs ih =>
    cases skip with
    | succ skip => exact ih only
    | zero =>
      rw [lexedFrom]
      rw [scanFrom] at only ⊢
      cases hl : Lexeme.at_ s.position s.afterOperand c cs with
      | error e =>
        rw [hl] at only
        exact absurd (only e rfl) (Lexeme.not_isMismatch_at_ hl)
      | ok l =>
        rw [hl] at only
        have head := read_token? s l
        dsimp only
        cases hn : s.note l (l.token? s.position s.breakCounts) with
        | error e =>
          rw [hn] at head
          refine ⟨s.position, ?_⟩
          rw [OpenBracket.through_append, head]
          simp [hn, Except.map, bind, Except.bind]
        | ok s' =>
          rw [hn] at head
          change ∀ e, (s.note l _ >>= _) = _ → _ at only
          rw [hn] at only
          have later : ∀ e, scanFrom cs (l.length - 1) (s'.past c) = .error e → e.IsMismatch :=
            fun e he =>
              only e (bind_eq_error.2 (.inr ⟨s', rfl, bind_eq_error.2 (.inl he)⟩))
          obtain ⟨p, run⟩ := ih later
          refine ⟨p, ?_⟩
          have passed : s.pass l (l.token? s.position s.breakCounts) = s' := by
            rw [ScanState.pass, hn]
          rw [OpenBracket.through_append, head, passed]
          change (s.note l _ >>= _) = _
          rw [hn]
          change (scanFrom cs (l.length - 1) (s'.past c) >>= _) = _
          rw [run]
          simp only [Except.map, bind_assoc, pure_bind, List.append_assoc]
          rfl

/-- A text in which all errors are about brackets is scanned if and only if its brackets are well
nested.  Else the error is at the first misplaced closing bracket, and if there is none, at the
innermost bracket that stays open. -/
theorem scan_iff_nested (text : String) (only : ∀ e, scan text = .error e → e.IsMismatch) :
    ((∃ tokens, scan text = .ok tokens) ↔ Nested (brackets (lexed text))) ∧
      (¬ Nested (brackets (lexed text)) → ∃ p expected found,
        scan text = .error (.bracketMismatch p expected found) ∧
          FaultAt (brackets (lexed text)) p) := by
  have all : ∀ t ∈ brackets (lexed text), t.isBracket := fun t ht => (List.mem_filter.1 ht).2
  have counted := OpenBracket.through_brackets [] (lexed text)
  obtain ⟨p, run⟩ := scanFrom_lexed only
  change scan text = (OpenBracket.through [] (lexed text) >>= _) at run
  rw [← counted] at run
  cases result : OpenBracket.through [] (brackets (lexed text)) with
  | error e =>
    obtain ⟨q, expected, found, rfl, fault, unnested⟩ := faultAt_of_through_error all result
    rw [result] at run
    have refused : scan text = .error (.bracketMismatch q expected found) := run
    refine ⟨⟨?_, fun nested => absurd nested unnested⟩,
      fun _ => ⟨q, expected, found, refused, fault⟩⟩
    rintro ⟨tokens, h⟩
    cases refused.symm.trans h
  | ok stack =>
    rw [result] at run
    cases stack with
    | nil =>
      have nested := (nested_iff_through all).2 result
      exact ⟨⟨fun _ => nested, fun _ => ⟨_, run⟩⟩, fun unnested => absurd nested unnested⟩
    | cons b outer =>
      obtain ⟨o, ho, hb⟩ := (LeavesOpen.of_through all result).innermost
      have unnested : ¬ Nested (brackets (lexed text)) := fun nested => by
        cases ((nested_iff_through all).1 nested).symm.trans result
      refine ⟨⟨?_, fun nested => absurd nested unnested⟩, fun _ => ⟨b.position, _, _, run, ?_⟩⟩
      · rintro ⟨tokens, h⟩
        cases run.symm.trans h
      · rw [hb.2.2]
        exact .opening (not_misplaced_of_through all result) ho

theorem scan_closes_list : ∃ p expected found,
    scan "a: (b, [c)" = .error (.bracketMismatch p expected found) ∧
      FaultAt (brackets (lexed "a: (b, [c)")) p := by
  have refused : scan "a: (b, [c)" = .error (.bracketMismatch ⟨1, 10⟩ "']'" "')'") := by rfl
  have only : ∀ e, scan "a: (b, [c)" = .error e → e.IsMismatch := fun e he =>
    ⟨_, _, _, Except.error.inj (he.symm.trans refused)⟩
  have law := scan_iff_nested "a: (b, [c)" only
  refine law.2 fun nested => ?_
  obtain ⟨tokens, h⟩ := law.1.2 nested
  cases refused.symm.trans h

end TypeNotation
