import TypeNotation.Session
import TypeNotation.Proofs.Answer
import TypeNotation.Proofs.Outcome
import TypeNotation.Proofs.TypeExpr.Sameness

/-!
# Loading is declaring one by one

A batch is loaded in two passes.  The first checks it against a copy of the declarations, to which
each declaration of the batch is added in turn; the second adds the batch to the registry, and skips
what is there already.  Declaring one by one checks and adds in one pass.

The copy does not always hold the very declarations that declaring one by one would have left: where
a name is declared again, equal up to positions or the order of members, the copy has the later
wording and the registry keeps the earlier one.  But the two are equal name by name, and that is all
that a check depends on.  So loading is refused where declaring one by one is, and otherwise leaves
the same session.  When it is refused, nothing has been added.
-/

namespace TypeNotation

namespace Registry

variable {ds es batch : List Declaration} {d e old : Declaration} {name : String} {r r' : Registry}

/-! ## Declarations by name -/

lemma mem_assign (h : e ∈ assign ds d) : e ∈ ds ∨ e = d := by
  induction ds with
  | nil => exact .inr (List.mem_singleton.1 h)
  | cons first rest ih =>
    unfold assign at h
    split at h
    · rcases List.mem_cons.1 h with h | h
      · exact .inr h
      · exact .inl (List.mem_cons_of_mem _ h)
    · rcases List.mem_cons.1 h with h | h
      · exact .inl (h ▸ List.mem_cons_self)
      · exact (ih h).imp_left (List.mem_cons_of_mem _)

/-- A name that is not taken is added behind all others. -/
lemma assign_of_lookupIn_eq_none (h : lookupIn ds d.name = none) : assign ds d = ds ++ [d] := by
  induction ds with
  | nil => rfl
  | cons first rest ih =>
    simp only [lookupIn, List.find?_cons] at h
    by_cases hname : first.name = d.name
    · simp [hname] at h
    · simp only [hname, decide_false] at h
      simp only [assign, hname, if_false, List.cons_append, ih h]

/-- What holds of all declarations holds of all with one more. -/
lemma forall_insert {P : Declaration → Prop} (h : ∀ e ∈ r.declarations, P e) (hd : P d) :
    ∀ e ∈ (r.insert d).declarations, P e := by
  unfold insert
  split
  · exact h
  · intro e he
    rcases mem_assign he with he | rfl
    · exact h e he
    · exact hd

lemma forall_foldl_insert {P : Declaration → Prop} (h : ∀ e ∈ r.declarations, P e)
    (hbatch : ∀ d ∈ batch, P d) : ∀ e ∈ (batch.foldl insert r).declarations, P e := by
  induction batch generalizing r with
  | nil => exact h
  | cons d batch ih =>
    rw [List.forall_mem_cons] at hbatch
    exact ih (forall_insert h hbatch.1) hbatch.2

/-! ## Checks -/

/-- A declaration passes if its name is free, or taken by an equal declaration that is not built
in. -/
lemma check_eq_ok : check ds d = .ok () ↔
    ∀ old, lookupIn ds d.name = some old → isBuiltin d.name = false ∧ old.same d = true := by
  unfold check
  cases lookupIn ds d.name with
  | none => simp
  | some old => cases isBuiltin d.name <;> cases old.same d <;> simp

lemma declare_eq_ok : r.declare d = .ok r' ↔
    check r.declarations d = .ok () ∧ r' = r.insert d := by
  unfold declare
  rw [bind_eq_ok]
  constructor
  · rintro ⟨⟨⟩, passed, h⟩
    exact ⟨passed, (pure_eq_ok.1 h).symm⟩
  · rintro ⟨passed, rfl⟩
    exact ⟨(), passed, rfl⟩

/-- What passes is added if its name is new, and changes nothing otherwise. -/
lemma insert_of_check (h : check r.declarations d = .ok ()) :
    r.insert d = if r.hasName d.name then r else ⟨r.declarations ++ [d], []⟩ := by
  unfold insert hasDeclaration hasName
  cases hold : r.lookup d.name with
  | none =>
    simp only [Option.any_none, Bool.false_eq_true, if_false, Option.isSome_none]
    rw [assign_of_lookupIn_eq_none hold]
  | some old =>
    have same : old.same d = true := (check_eq_ok.1 h old hold).2
    simp [same]

/-- What is declared stays declared. -/
lemma lookup_of_declare (h : r.declare d = .ok r') (hl : r.lookup name = some e) :
    r'.lookup name = some e := by
  obtain ⟨passed, rfl⟩ := declare_eq_ok.1 h
  rw [insert_of_check passed]
  split
  · exact hl
  · unfold lookup lookupIn at hl ⊢
    rw [List.find?_append, hl, Option.some_or]

/-! ## Declarations that are equal one by one -/

/-- Declarations that are equal one by one, in the same order. -/
abbrev Alike : List Declaration → List Declaration → Prop :=
  List.Forall₂ fun d e => d.same e = true

lemma alike_self (ds : List Declaration) : Alike ds ds :=
  List.forall₂_same.2 fun d _ => d.same_self

lemma lookupIn_alike (h : Alike ds es) (name : String) :
    Option.Rel (fun d e => d.same e = true) (lookupIn ds name) (lookupIn es name) := by
  induction h with
  | nil => exact .none
  | @cons d e ds es same _ ih =>
    have names : d.name = e.name := (Declaration.same_iff.1 same).1
    unfold lookupIn at ih ⊢
    rw [List.find?_cons, List.find?_cons, names]
    by_cases hname : e.name = name
    · simp only [hname, decide_true]
      exact .some same
    · simp only [hname, decide_false]
      exact ih

/-- A check passes against both of two lists that are alike, or is refused by both. -/
lemma check_alike (h : Alike ds es) (d : Declaration) :
    (check ds d = .ok () ∧ check es d = .ok ()) ∨
      ∃ old old', check ds d = .error ⟨d, old⟩ ∧ check es d = .error ⟨d, old'⟩ ∧
        old.same old' = true := by
  have related := lookupIn_alike h d.name
  unfold check
  rcases hold : lookupIn ds d.name with _ | old <;> rcases hold' : lookupIn es d.name with _ | old'
  · exact .inl ⟨rfl, rfl⟩
  · rw [hold, hold'] at related
    cases related
  · rw [hold, hold'] at related
    cases related
  · rw [hold, hold'] at related
    cases related with
    | some same =>
      have equally : old.same d = old'.same d := by
        rw [Bool.eq_iff_iff]
        exact ⟨fun h => Declaration.same_trans (Declaration.same_symm same) h,
          fun h => Declaration.same_trans same h⟩
      dsimp only
      rw [equally]
      by_cases refused : (isBuiltin d.name || !old'.same d) = true
      · rw [if_pos refused, if_pos refused]
        exact .inr ⟨old, old', rfl, rfl, same⟩
      · rw [if_neg refused, if_neg refused]
        exact .inl ⟨rfl, rfl⟩

lemma alike_assign (h : Alike ds es) (d : Declaration) :
    Alike (assign ds d) (assign es d) := by
  induction h with
  | nil => exact .cons d.same_self .nil
  | @cons first first' ds es same rest ih =>
    have names : first.name = first'.name := (Declaration.same_iff.1 same).1
    unfold assign
    rw [names]
    split
    · exact .cons d.same_self rest
    · exact .cons same ih

/-- Another wording in the place of a declaration leaves declarations alike. -/
lemma alike_assign_known (h : Alike ds es) (known : lookupIn es d.name = some old)
    (same : old.same d = true) : Alike (assign ds d) es := by
  induction h with
  | nil => cases known
  | @cons first first' ds es alike rest ih =>
    have names : first.name = first'.name := (Declaration.same_iff.1 alike).1
    simp only [lookupIn, List.find?_cons] at known
    unfold assign
    rw [names]
    by_cases hname : first'.name = d.name
    · simp only [hname, decide_true, Option.some.injEq] at known
      rw [if_pos hname, known]
      exact .cons (Declaration.same_symm same) rest
    · simp only [hname, decide_false] at known
      rw [if_neg hname]
      exact .cons alike (ih known)

/-- The copy and the registry stay alike when a declaration that passes is added to both. -/
lemma alike_insert (h : Alike ds r.declarations) (passed : check r.declarations d = .ok ()) :
    Alike (assign ds d) (r.insert d).declarations := by
  unfold insert hasDeclaration
  cases hold : r.lookup d.name with
  | none => exact alike_assign h d
  | some old =>
    have same : old.same d = true := (check_eq_ok.1 passed old hold).2
    simp only [Option.any_some, same, if_true]
    exact alike_assign_known h hold same

/-! ## Batches -/

/-- Adding a batch without checks does what declaring one by one does, if that is not refused. -/
lemma foldl_insert_of_declare (h : batch.foldlM declare r = .ok r') :
    batch.foldl insert r = r' := by
  induction batch generalizing r with
  | nil => exact pure_eq_ok.1 h
  | cons d batch ih =>
    rw [List.foldlM_cons] at h
    obtain ⟨r₁, hd, h⟩ := bind_eq_ok.1 h
    rw [List.foldl_cons, ← (declare_eq_ok.1 hd).2]
    exact ih h

/-- Declaring one by one forgets the memo if a new name comes in, and only then. -/
lemma memo_of_declare (h : batch.foldlM declare r = .ok r') :
    r'.memo = if batch.all fun d => r.hasName d.name then r.memo else [] := by
  induction batch generalizing r with
  | nil => exact congrArg Registry.memo (pure_eq_ok.1 h).symm
  | cons d batch ih =>
    rw [List.foldlM_cons] at h
    obtain ⟨r₁, hd, h⟩ := bind_eq_ok.1 h
    obtain ⟨passed, rfl⟩ := declare_eq_ok.1 hd
    rw [ih h, insert_of_check passed]
    cases known : r.hasName d.name with
    | true => simp [known]
    | false => simp [known]

/-- The checks of a batch pass against declarations that are alike exactly if declaring one by one
is not refused.  Otherwise both refuse the same declaration, because of equal ones. -/
lemma checkAll_alike (h : Alike ds r.declarations) (batch : List Declaration) :
    (checkAll ds batch = .ok () ∧ ∃ r', batch.foldlM declare r = .ok r') ∨
      ∃ c c', checkAll ds batch = .error c ∧ batch.foldlM declare r = .error c' ∧
        c.new = c'.new ∧ c.old.same c'.old = true := by
  induction batch generalizing ds r with
  | nil => exact .inl ⟨rfl, r, rfl⟩
  | cons d batch ih =>
    rw [List.foldlM_cons, checkAll]
    rcases check_alike h d with ⟨passed, passed'⟩ | ⟨old, old', refused, refused', same⟩
    · rw [passed, declare_eq_ok.2 ⟨passed', rfl⟩]
      exact ih (alike_insert h passed')
    · rw [refused, declare, refused']
      exact .inr ⟨⟨d, old⟩, ⟨d, old'⟩, rfl, rfl, rfl, same⟩

/-- Loading gives what declaring one by one gives, or both are refused. -/
lemma load_or_refused (r : Registry) (batch : List Declaration) :
    (∃ r', batch.foldlM declare r = .ok r' ∧ r.load batch = .ok r') ∨
      ∃ c c', batch.foldlM declare r = .error c' ∧ r.load batch = .error c ∧
        c.new = c'.new ∧ c.old.same c'.old = true := by
  unfold load
  rcases checkAll_alike (alike_self r.declarations) batch with
    ⟨passed, r', declared⟩ | ⟨c, c', refused, refused', new, old⟩
  · rw [passed]
    exact .inl ⟨r', declared, congrArg Except.ok (foldl_insert_of_declare declared)⟩
  · rw [refused]
    exact .inr ⟨c, c', refused', rfl, new, old⟩

lemma lookup_of_load (h : r.load batch = .ok r') (hl : r.lookup name = some e) :
    r'.lookup name = some e := by
  obtain ⟨r₁, declared, loaded⟩ | ⟨c, c', -, refused, -, -⟩ := load_or_refused r batch
  · rw [h] at loaded
    cases loaded
    clear h
    induction batch generalizing r with
    | nil => exact pure_eq_ok.1 declared ▸ hl
    | cons d batch ih =>
      rw [List.foldlM_cons] at declared
      obtain ⟨r₁, hd, declared⟩ := bind_eq_ok.1 declared
      exact ih (lookup_of_declare hd hl) declared
  · rw [h] at refused
    cases refused

end Registry

/-! ## Sessions -/

namespace Action

lemma outcome_updateRegistry (f : Registry → Except Conflict Registry) (s : Session) :
    outcome (updateRegistry f) s =
      match f s.registry with
      | .ok registry => (.ok (), { s with registry })
      | .error c => (.error (.conflict c), s) := by
  simp only [updateRegistry, outcome_bind, outcome_get]
  cases f s.registry <;> rfl

/-- A session after declarations have been made one by one, until one is refused. -/
lemma outcome_forM_declare (s : Session) (batch : List Declaration) :
    (∃ r, batch.foldlM Registry.declare s.registry = .ok r ∧
        outcome (batch.forM declare) s = (.ok (), { s with registry := r })) ∨
      ∃ c s', batch.foldlM Registry.declare s.registry = .error c ∧
        outcome (batch.forM declare) s = (.error (.conflict c), s') := by
  induction batch generalizing s with
  | nil => exact .inl ⟨s.registry, rfl, rfl⟩
  | cons d batch ih =>
    rw [List.foldlM_cons, List.forM, outcome_bind, declare, outcome_updateRegistry]
    cases s.registry.declare d with
    | ok r => exact ih { s with registry := r }
    | error c => exact .inr ⟨c, s, rfl, rfl⟩

/-- Loading a batch is all or nothing.  Where declaring it one by one is not refused, it leaves the
same session, and has forgotten the memo if a name was new; where that is refused, it is refused as
well, because of the same declaration, and leaves the session as it was. -/
theorem load_all_or_nothing (s : Session) (batch : List Declaration) :
    (∃ s', outcome (batch.forM declare) s = (.ok (), s') ∧ outcome (load batch) s = (.ok (), s') ∧
        s'.registry.memo =
          if batch.all fun d => s.registry.hasName d.name then s.registry.memo else []) ∨
      ∃ c c' s', outcome (batch.forM declare) s = (.error (.conflict c'), s') ∧
        outcome (load batch) s = (.error (.conflict c), s) ∧
        c.new = c'.new ∧ c.old.same c'.old = true := by
  rw [load, outcome_updateRegistry]
  rcases Registry.load_or_refused s.registry batch with
    ⟨r, declared, loaded⟩ | ⟨c, c', refused, refused', new, old⟩
  · rw [loaded]
    rcases outcome_forM_declare s batch with ⟨r', declared', one⟩ | ⟨c, s', refused, -⟩
    · rw [declared] at declared'
      cases declared'
      exact .inl ⟨_, one, rfl, Registry.memo_of_declare declared⟩
    · rw [declared] at refused
      cases refused
  · rw [refused']
    rcases outcome_forM_declare s batch with ⟨r', declared, -⟩ | ⟨c'', s', refused'', one⟩
    · rw [refused] at declared
      cases declared
    · rw [refused] at refused''
      cases refused''
      exact .inr ⟨c, c', s', one, rfl, new, old⟩

end Action

end TypeNotation
