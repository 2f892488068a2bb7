import Mathlib.Data.List.Pairwise
import TypeNotation.Proofs.Session.Loading

/-!
# The order of a batch

Each declaration of a batch is checked against whatever came before it.  Yet whether a batch is
loaded does not depend on its order, and neither does what is declared afterwards, up to equality.

The reason is that a batch passes exactly if each of its declarations passes on its own, and no two
of them stand in each other's way, which is a symmetric relation.  What a name stands for afterwards
is what it stood for before, or else the first declaration of that name in the batch; and of the
declarations that do not stand in each other's way, those of one name are all equal.
-/

namespace TypeNotation

namespace Registry

variable {d e : Declaration} {ds es batch : List Declaration} {r r' : Registry} {name : String}

/-! ## What a batch leaves -/

/-- What passes is found under its name, unless that name is taken. -/
lemma lookup_insert_of_check (passed : check r.declarations d = .ok ()) (name : String) :
    (r.insert d).lookup name = (r.lookup name).or (lookupIn [d] name) := by
  rw [insert_of_check passed]
  cases known : r.hasName d.name with
  | true =>
    simp only [if_true, lookupIn, List.find?_singleton]
    by_cases hname : d.name = name
    · obtain ⟨old, hold⟩ := Option.isSome_iff_exists.1 (hname ▸ known)
      rw [hold, Option.some_or]
    · simp [hname]
  | false =>
    simp only [Bool.false_eq_true, if_false, lookup, lookupIn, List.find?_append]

/-- A name stands for what it stood for, or else for the first declaration of that name. -/
lemma lookup_of_foldlM (h : batch.foldlM declare r = .ok r') (name : String) :
    r'.lookup name = (r.lookup name).or (lookupIn batch name) := by
  induction batch generalizing r with
  | nil =>
    rw [pure_eq_ok.1 h, lookupIn, List.find?_nil, Option.or_none]
  | cons d batch ih =>
    rw [List.foldlM_cons] at h
    obtain ⟨r₁, hd, h⟩ := bind_eq_ok.1 h
    obtain ⟨passed, rfl⟩ := declare_eq_ok.1 hd
    rw [ih h, lookup_insert_of_check passed, Option.or_assoc]
    simp only [lookupIn, ← List.find?_append, List.singleton_append]

/-- The declared names are those that stand for something. -/
lemma mem_names {includeBuiltins : Bool} : name ∈ r.names includeBuiltins ↔
    r.hasName name = true ∧ (includeBuiltins || !isBuiltin name) = true := by
  simp [names, hasName, lookup, lookupIn]

/-! ## What a batch needs -/

/-- Two declarations go together if they have different names, or are equal and not built in. -/
def Together (d e : Declaration) : Prop :=
  d.name = e.name → isBuiltin d.name = false ∧ d.same e = true

lemma Together.symm (h : Together d e) : Together e d := fun names =>
  have ⟨free, same⟩ := h names.symm
  ⟨names ▸ free, Declaration.same_symm same⟩

instance : Std.Symm Together := ⟨fun _ _ => Together.symm⟩

/-- After a declaration has been added, another one passes if it passed before and both go
together. -/
lemma check_insert (passed : check r.declarations d = .ok ()) (e : Declaration) :
    check (r.insert d).declarations e = .ok () ↔
      check r.declarations e = .ok () ∧ Together d e := by
  have found : lookupIn (r.insert d).declarations e.name =
      (lookupIn r.declarations e.name).or (lookupIn [d] e.name) :=
    lookup_insert_of_check passed e.name
  rw [check_eq_ok, check_eq_ok, found]
  cases hold : lookupIn r.declarations e.name with
  | none =>
    by_cases names : d.name = e.name <;> simp [Together, lookupIn, names]
  | some old =>
    simp only [Option.some_or, Option.some.injEq, forall_eq']
    refine ⟨fun h => ⟨h, fun names => ⟨names ▸ h.1, ?_⟩⟩, And.left⟩
    -- both are equal to what the name stands for
    have same : old.same d = true := (check_eq_ok.1 passed old (names ▸ hold)).2
    exact Declaration.same_trans (Declaration.same_symm same) h.2

/-- Declarations can be made one by one if each passes on its own, and any two go together. -/
lemma foldlM_declare_eq_ok : (∃ r', batch.foldlM declare r = .ok r') ↔
    (∀ d ∈ batch, check r.declarations d = .ok ()) ∧ batch.Pairwise Together := by
  induction batch generalizing r with
  | nil => simp [pure_eq_ok]
  | cons d batch ih =>
    have step : (∃ r', (d :: batch).foldlM declare r = .ok r') ↔
        check r.declarations d = .ok () ∧ ∃ r', batch.foldlM declare (r.insert d) = .ok r' := by
      simp only [List.foldlM_cons, bind_eq_ok, declare_eq_ok]
      constructor
      · rintro ⟨r', _, ⟨passed, rfl⟩, h⟩
        exact ⟨passed, r', h⟩
      · rintro ⟨passed, r', h⟩
        exact ⟨r', _, ⟨passed, rfl⟩, h⟩
    rw [step, List.forall_mem_cons, List.pairwise_cons, and_assoc]
    refine and_congr_right fun passed => ?_
    rw [ih]
    simp only [check_insert passed, forall_and]
    tauto

/-- A batch is loaded if each declaration passes on its own, and any two go together. -/
lemma load_eq_ok_iff : (∃ r', r.load batch = .ok r') ↔
    (∀ d ∈ batch, check r.declarations d = .ok ()) ∧ batch.Pairwise Together := by
  rw [← foldlM_declare_eq_ok]
  rcases load_or_refused r batch with ⟨r', declared, loaded⟩ | ⟨c, c', refused, refused', -⟩
  · simp [declared, loaded]
  · simp [refused, refused']

/-! ## Another order -/

/-- Whether a batch is loaded does not depend on its order. -/
lemma exists_load_perm (perm : ds.Perm es) :
    (∃ r', r.load ds = .ok r') ↔ ∃ r', r.load es = .ok r' := by
  rw [load_eq_ok_iff, load_eq_ok_iff, perm.pairwise_iff Together.symm]
  simp only [perm.mem_iff]

/-- Of declarations that go together, those of one name are equal, so that it does not matter which
of them comes first. -/
lemma lookupIn_perm (perm : ds.Perm es) (together : ds.Pairwise Together) (name : String) :
    Option.Rel (fun d e => d.same e = true) (lookupIn ds name) (lookupIn es name) := by
  have equal {d e : Declaration} (hd : d ∈ ds) (he : e ∈ ds) (names : d.name = e.name) :
      d.same e = true := by
    by_cases heq : d = e
    · exact heq ▸ d.same_self
    · exact (together.forall hd he heq names).2
  have absent : lookupIn ds name = none ↔ lookupIn es name = none := by
    simp only [lookupIn, List.find?_eq_none, perm.mem_iff]
  cases hd : lookupIn ds name with
  | none =>
    rw [absent.1 hd]
    exact .none
  | some d =>
    cases he : lookupIn es name with
    | none =>
      rw [absent.2 he] at hd
      cases hd
    | some e =>
      have named : d.name = name ∧ e.name = name :=
        ⟨by simpa using List.find?_some hd, by simpa using List.find?_some he⟩
      exact .some (equal (List.mem_of_find?_eq_some hd)
        (perm.mem_iff.2 (List.mem_of_find?_eq_some he)) (named.1.trans named.2.symm))

/-- Loading a batch in another order is refused if loading it was.  Otherwise the same names are
declared as equal declarations, and the memo has been forgotten in both cases or in neither. -/
theorem load_perm (r : Registry) (perm : ds.Perm es) :
    (∃ r₁ r₂, r.load ds = .ok r₁ ∧ r.load es = .ok r₂ ∧
        (∀ includeBuiltins name,
          name ∈ r₁.names includeBuiltins ↔ name ∈ r₂.names includeBuiltins) ∧
        (∀ name, Option.Rel (fun d e => d.same e = true) (r₁.lookup name) (r₂.lookup name)) ∧
        r₁.memo = r₂.memo) ∨
      ∃ c₁ c₂, r.load ds = .error c₁ ∧ r.load es = .error c₂ := by
  rcases load_or_refused r ds with ⟨r₁, declared₁, loaded₁⟩ | ⟨c₁, -, -, refused₁, -⟩ <;>
    rcases load_or_refused r es with ⟨r₂, declared₂, loaded₂⟩ | ⟨c₂, -, -, refused₂, -⟩
  · have equal (name : String) :
        Option.Rel (fun d e => d.same e = true) (r₁.lookup name) (r₂.lookup name) := by
      rw [lookup_of_foldlM declared₁, lookup_of_foldlM declared₂]
      cases r.lookup name with
      | some d =>
        rw [Option.some_or, Option.some_or]
        exact .some d.same_self
      | none => exact lookupIn_perm perm (load_eq_ok_iff.1 ⟨r₁, loaded₁⟩).2 name
    have known (name : String) : r₁.hasName name = r₂.hasName name := by
      have related := equal name
      unfold hasName
      generalize r₁.lookup name = found₁ at related ⊢
      generalize r₂.lookup name = found₂ at related ⊢
      cases related <;> rfl
    refine .inl ⟨r₁, r₂, loaded₁, loaded₂, fun _ _ => ?_, equal, ?_⟩
    · rw [mem_names, mem_names, known]
    · rw [memo_of_declare declared₁, memo_of_declare declared₂, perm.all_eq]
  · obtain ⟨r₂, loaded₂⟩ := (exists_load_perm perm).1 ⟨r₁, loaded₁⟩
    rw [loaded₂] at refused₂
    cases refused₂
  · obtain ⟨r₁, loaded₁⟩ := (exists_load_perm perm).2 ⟨r₂, loaded₂⟩
    rw [loaded₁] at refused₁
    cases refused₁
  · exact .inr ⟨c₁, c₂, refused₁, refused₂⟩

/-! ### A name that is declared twice -/

/-- Two declarations of one name, equal up to the order of the members of a list. -/
def twin (first second : TypeExpr) : Declaration :=
  ⟨"t", [], .list (.written none) [first, second], none⟩

/-- The declarations, with another one between them. -/
def twins : List Declaration :=
  [twin (.unit (.written none)) (.number (.literal none (.int 1))),
    ⟨"u", [], .unit (.written none), none⟩,
    twin (.number (.literal none (.int 1))) (.unit (.written none))]

/-- They are loaded in the opposite order as well, and the name stands for an equal list. -/
theorem load_twins_reverse : twins.Perm twins.reverse ∧
    ∃ r₁ r₂, empty.load twins = .ok r₁ ∧ empty.load twins.reverse = .ok r₂ ∧
      ∀ name, Option.Rel (fun d e => d.same e = true) (r₁.lookup name) (r₂.lookup name) := by
  have perm : twins.Perm twins.reverse := (List.reverse_perm twins).symm
  refine ⟨perm, ?_⟩
  rcases load_perm empty perm with ⟨r₁, r₂, loaded₁, loaded₂, -, equal, -⟩ | ⟨c₁, -, refused, -⟩
  · exact ⟨r₁, r₂, loaded₁, loaded₂, equal⟩
  · have accepted : (empty.load twins).isOk = true := by decide +kernel
    rw [refused] at accepted
    cases accepted

end Registry

end TypeNotation
