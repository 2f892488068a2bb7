import Mathlib.Data.List.DropRight
import TypeNotation.Proofs.Token.Trace

/-!
# What the tokens account for

The tokens of a text are pieces of it: each is written at the place that it says, they stand one
after the other, and whatever is left between them is white space, a comment or a line break inside
of brackets.
-/

namespace TypeNotation

open Text

/-! ## Places -/

/-- The position of the character at an index.  Lines are counted by line feeds, and columns by the
characters on the line, both from one. -/
def Position.ofIndex (text : List Char) (i : Nat) : Position :=
  ⟨(text.take i).count '\n' + 1, ((text.take i).rtakeWhile (· ≠ '\n')).length + 1⟩

lemma Position.after_start (cs : List Char) : Position.after ⟨1, 1⟩ cs =
    ⟨cs.count '\n' + 1, (cs.rtakeWhile (· ≠ '\n')).length + 1⟩ := by
  induction cs using List.reverseRecOn with
  | nil => rfl
  | append_singleton cs c ih =>
    have last : Position.after ⟨1, 1⟩ (cs ++ [c]) =
        Position.after (Position.after ⟨1, 1⟩ cs) [c] := List.foldl_append
    rw [last, ih, Position.after, List.foldl_cons, List.foldl_nil, List.rtakeWhile_concat,
      List.count_append]
    by_cases hc : c = '\n'
    · simp [hc]
    · simp [hc]

lemma Position.ofIndex_length (pre rest : List Char) :
    Position.ofIndex (pre ++ rest) pre.length = Position.after ⟨1, 1⟩ pre := by
  rw [ofIndex, List.take_left, after_start]

/-- A token with the index of its first character. -/
structure Placed where
  start : Nat
  token : Token

namespace Placed

/-- The index behind the last character of a token. -/
def stop (e : Placed) : Nat :=
  e.start + e.token.text.length

/-- The tokens that start before an index. -/
def upTo (placed : List Placed) (k : Nat) : List Token :=
  (placed.filter (·.start < k)).map (·.token)

end Placed

/-- The characters of a line from an index on. -/
def lineFrom (text : List Char) (j : Nat) : List Char :=
  (text.drop j).takeWhile (· ≠ '\n')

/-- What stands between the tokens among the first characters of a text: white space, a character of
a comment, which reaches to the end of its line, or a line break inside of brackets. -/
inductive Between (text : List Char) (size : Nat) (placed : List Placed) (k : Nat) : Prop
  | blank {c : Char} : text[k]? = some c → c ≠ '\n' → isBlank c → Between text size placed k
  | comment {j : Nat} : ['/', '/'] <+: text.drop j → j ≤ k → k < j + (lineFrom text j).length →
      j + (lineFrom text j).length ≤ size →
      (∀ e ∈ placed, e.stop ≤ j ∨ j + (lineFrom text j).length ≤ e.start) →
      Between text size placed k
  | enclosed {o : Token} : text[k]? = some '\n' → Innermost (brackets (Placed.upTo placed k)) o →
      o.kind ∈ [.mark .parenOpen, .mark .bracketOpen, .mark .tupleOpen] →
      Between text size placed k

/-- Tokens account for the first characters of a text. -/
structure Accounts (text : List Char) (size : Nat) (placed : List Placed) : Prop where
  position : ∀ e ∈ placed, e.token.position = Position.ofIndex text e.start
  written : ∀ e ∈ placed, e.token.text.toList <+: text.drop e.start ∧ e.token.text ≠ ""
  within : ∀ e ∈ placed, e.stop ≤ size
  ordered : placed.Pairwise fun d e => d.stop ≤ e.start
  complete : ∀ k < size, (∃ e ∈ placed, e.start ≤ k ∧ k < e.stop) ∨ Between text size placed k

namespace Accounts

variable {text : List Char} {n m : Nat} {placed : List Placed}

lemma start_lt (h : Accounts text n placed) {e : Placed} (he : e ∈ placed) : e.start < n := by
  have long := h.within e he
  have filled : e.token.text.length ≠ 0 := by
    rw [← String.length_toList, ne_eq, List.length_eq_zero_iff, String.toList_eq_nil_iff]
    exact (h.written e he).2
  rw [Placed.stop] at long
  omega

lemma upTo_of_le (h : Accounts text n placed) {k : Nat} (hk : n ≤ k) :
    Placed.upTo placed k = placed.map (·.token) := by
  rw [Placed.upTo, List.filter_eq_self.2]
  exact fun e he => decide_eq_true (Nat.lt_of_lt_of_le (h.start_lt he) hk)

/-- What stands between tokens still does so when more of the text is accounted for. -/
lemma between_append {k : Nat} (hk : k < n) (h : Between text n placed k) (more : n ≤ m)
    {later : List Placed} (hl : ∀ e ∈ later, n ≤ e.start) :
    Between text m (placed ++ later) k := by
  cases h with
  | blank hc unbroken blank => exact .blank hc unbroken blank
  | comment slashes low high ends apart =>
    refine .comment slashes low high (Nat.le_trans ends more) fun e he => ?_
    rcases List.mem_append.1 he with he | he
    · exact apart e he
    · exact .inr (Nat.le_trans ends (hl e he))
  | enclosed hc innermost kind =>
    refine .enclosed hc ?_ kind
    have same : Placed.upTo (placed ++ later) k = Placed.upTo placed k := by
      have none : later.filter (fun e => decide (e.start < k)) = [] :=
        List.filter_eq_nil_iff.2 fun e he => by
          have := hl e he
          simp only [decide_eq_true_eq]
          omega
      rw [Placed.upTo, List.filter_append, none, List.append_nil, Placed.upTo]
    rwa [same]

/-- Pass over characters that make no token. -/
lemma skip (h : Accounts text n placed) (more : n ≤ m)
    (between : ∀ k, n ≤ k → k < m → Between text m placed k) : Accounts text m placed where
  position := h.position
  written := h.written
  within e he := Nat.le_trans (h.within e he) more
  ordered := h.ordered
  complete k hk := by
    rcases Nat.lt_or_ge k n with low | high
    · refine (h.complete k low).imp_right fun between => ?_
      rw [← List.append_nil placed]
      exact between_append low between more (by simp)
    · exact .inr (between k high hk)

/-- Pass over the characters of a token. -/
lemma push (h : Accounts text n placed) {t : Token} (position : t.position = .ofIndex text n)
    (written : t.text.toList <+: text.drop n) (nonempty : t.text ≠ "") :
    Accounts text (n + t.text.length) (placed ++ [⟨n, t⟩]) where
  position := by
    rw [List.forall_mem_append]
    exact ⟨h.position, List.forall_mem_singleton.2 position⟩
  written := by
    rw [List.forall_mem_append]
    exact ⟨h.written, List.forall_mem_singleton.2 ⟨written, nonempty⟩⟩
  within := by
    rw [List.forall_mem_append]
    exact ⟨fun e he => Nat.le_add_right_of_le (h.within e he),
      List.forall_mem_singleton.2 (Nat.le_refl _)⟩
  ordered := by
    rw [List.pairwise_append]
    refine ⟨h.ordered, List.pairwise_singleton .., fun d hd e he => ?_⟩
    cases List.mem_singleton.1 he
    exact h.within d hd
  complete k hk := by
    rcases Nat.lt_or_ge k n with low | high
    · rcases h.complete k low with ⟨e, he, inside⟩ | between
      · exact .inl ⟨e, List.mem_append_left _ he, inside⟩
      · exact .inr (between_append low between (Nat.le_add_right _ _) (by simp))
    · exact .inl ⟨⟨n, t⟩, List.mem_append_right _ List.mem_cons_self, high, hk⟩

end Accounts

/-! ## Scanning -/

/-- A line break that is no token stands directly inside parentheses, a list or a tuple. -/
lemma innermost_of_not_breakCounts {s : ScanState} {ts : List Token}
    (stack : OpenBracket.through [] ts = .ok s.brackets) (h : s.breakCounts = false) :
    ∃ o, Innermost (brackets ts) o ∧
      o.kind ∈ [.mark .parenOpen, .mark .bracketOpen, .mark .tupleOpen] := by
  rw [← OpenBracket.through_brackets] at stack
  have opened := LeavesOpen.of_through (fun t ht => (List.mem_filter.1 ht).2) stack
  cases open_ : s.brackets with
  | nil => simp [ScanState.breakCounts, open_] at h
  | cons b outer =>
    rw [open_] at opened
    obtain ⟨o, ho, kind, closer, -⟩ := opened.innermost
    refine ⟨o, ho, ?_⟩
    rw [ScanState.breakCounts, open_] at h
    rw [kind]
    cases hp : b.opener <;> simp_all [Punctuation.closer?]

namespace Step

variable {s s' : ScanState} {pre cs rest : List Char} {l : Lexeme} {placed : List Placed}

/-- Where the tokens so far account for the text so far, they do so after one more lexeme. -/
lemma accounts (h : Step s cs rest l s')
    (here : s.position = Position.after ⟨1, 1⟩ pre)
    (stack : OpenBracket.through [] (placed.map (·.token)) = .ok s.brackets)
    (so_far : Accounts (pre ++ (cs ++ rest)) pre.length placed) :
    Accounts (pre ++ (cs ++ rest)) (pre ++ cs).length
      (placed ++ ((s.token? l).map (⟨pre.length, ·⟩)).toList) := by
  rw [List.length_append]
  have dropped : (pre ++ (cs ++ rest)).drop pre.length = cs ++ rest := List.drop_left
  cases ht : s.token? l with
  | some t =>
    have chars := h.text_of_token ht
    rw [← chars, String.length_toList]
    rw [← chars] at so_far
    refine so_far.push ?_ ?_ ?_
    · rw [Lexeme.position_of_token? ht, here, Position.ofIndex_length]
    · rw [chars, dropped]
      exact List.prefix_append _ _
    · rintro empty
      rw [empty] at chars
      exact h.nonempty chars.symm
  | none =>
    rw [Option.map_none, Option.toList_none, List.append_nil]
    refine so_far.skip (Nat.le_add_right _ _) fun k low high => ?_
    have read := h.readFrom
    have length := h.length
    have at_ (one : cs.length = 1) : (pre ++ (cs ++ rest))[k]? = (cs ++ rest).head? := by
      have : k = pre.length := by omega
      rw [this, ← List.head?_drop, dropped]
    cases l with
    | lineBreak =>
      have silent : s.breakCounts = false := by
        cases counts : s.breakCounts with
        | false => rfl
        | true => simp [ScanState.token?, Lexeme.token?, counts] at ht
      obtain ⟨o, innermost, kind⟩ := innermost_of_not_breakCounts stack silent
      refine .enclosed ((at_ length.symm).trans read) ?_ kind
      rwa [so_far.upTo_of_le low]
    | blank =>
      obtain ⟨c, hc, unbroken, blank⟩ := read
      exact .blank ((at_ length.symm).trans hc) unbroken blank
    | comment size =>
      have whole : (lineFrom (pre ++ (cs ++ rest)) pre.length).length = cs.length := by
        rw [lineFrom, dropped, ← read.2]
        exact length
      refine .comment (dropped.symm ▸ read.1) low (whole.symm ▸ high) ?_ fun e he => .inl ?_
      · rw [whole]
      · exact so_far.within e he
    | word | number | mark => cases ht

end Step

/-- What holds of the tokens and of the state to which scanning comes in a text. -/
structure Reached (text pre : List Char) (ts : List Token) (s : ScanState) : Prop where
  position : s.position = Position.after ⟨1, 1⟩ pre
  stack : OpenBracket.through [] ts = .ok s.brackets
  accounts : ∃ placed, ts = placed.map (·.token) ∧ Accounts text pre.length placed

lemma Reached.start (text : List Char) : Reached text [] [] .start where
  position := rfl
  stack := rfl
  accounts := ⟨[], rfl, by simp, by simp, by simp, List.Pairwise.nil, by simp⟩

lemma Reached.step {text pre cs rest : List Char} {ts : List Token} {s s' : ScanState}
    {l : Lexeme} (split : text = pre ++ (cs ++ rest)) (h : Reached text pre ts s)
    (step : Step s cs rest l s') : Reached text (pre ++ cs) (ts ++ (s.token? l).toList) s' where
  position := by
    rw [step.position, h.position, Position.after, Position.after, Position.after,
      List.foldl_append]
  stack := by
    rw [OpenBracket.through_append, h.stack]
    exact step.through
  accounts := by
    subst split
    obtain ⟨placed, rfl, accounts⟩ := h.accounts
    refine ⟨_, ?_, step.accounts h.position h.stack accounts⟩
    cases s.token? l <;> simp

/-- What is scanned is accounted for: the tokens stand where they say, in order, and between them
there is nothing but white space, comments, and line breaks inside of brackets. -/
theorem scan_accounts {text : String} {tokens : List Token} (h : scan text = .ok tokens) :
    ∃ placed, tokens = placed.map (·.token) ++
        closing (.ofIndex text.toList text.toList.length) ∧
      Accounts text.toList text.toList.length placed := by
  obtain ⟨ts, s, scans, -, rfl⟩ := scanFrom_eq_ok_iff.1 h
  have whole : text.toList = [] ++ (text.toList ++ []) := by simp
  have reached := scans.invariant Reached.step whole (Reached.start text.toList)
  rw [List.nil_append, List.nil_append] at reached
  obtain ⟨placed, rfl, accounts⟩ := reached.accounts
  refine ⟨placed, ?_, accounts⟩
  have last := Position.ofIndex_length text.toList []
  rw [List.append_nil] at last
  rw [reached.position, last]

theorem scan_accounts_comment : ∃ tokens, scan "a: (b // c\n-1)" = .ok tokens ∧
    ∃ placed, tokens = placed.map (·.token) ++ closing ⟨2, 4⟩ ∧
      Accounts "a: (b // c\n-1)".toList 14 placed := by
  obtain ⟨tokens, h⟩ : ∃ tokens, scan "a: (b // c\n-1)" = .ok tokens := ⟨_, rfl⟩
  have last : Position.ofIndex "a: (b // c\n-1)".toList "a: (b // c\n-1)".toList.length =
      ⟨2, 4⟩ := by
    rfl
  have size : "a: (b // c\n-1)".toList.length = 14 := by rfl
  have law := scan_accounts h
  rw [last, size] at law
  exact ⟨tokens, h, law⟩

end TypeNotation
