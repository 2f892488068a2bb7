import TypeNotation.Proofs.Resolution.Occurrences
import TypeNotation.Proofs.Resolution.World

/-!
# Which variables come up in a type

A *realm* says which names of declarations and which variables may come up in a type.  It is closed
if the bodies of its declarations refer to names of the realm only, and their variables, apart from
the parameters, belong to it.  Whatever is resolved in a closed realm stays in it, and so does
everything that the result leads to: the variables in the bodies of named types, and those in the
results of suspended targets.

The second part is not obvious.  The variables of a suspended target are given the scope in which it
was suspended, but equality of types does not look at that scope.  So an expansion in the memo may
have an argument with a suspended target of another declaration in it.  It does no harm if no
variable is given a scope there: if all variables of the targets that stand in arguments are bound.
Targets that stand elsewhere may have other variables, since only arguments pass from one
declaration to another.
-/

namespace TypeNotation

namespace TypeExpr

/-! ## What is asked of written types -/

/-- A type refers to a name. -/
def Mentions (t : TypeExpr) (name : String) : Prop :=
  ∃ m args, reference m name args ∈ t.subterms

/-- A type without variables that have a scope. -/
def Unscoped (t : TypeExpr) : Prop :=
  ∀ m v, typeVariable m v ∈ t.subterms → v.scope = none

/-- The letters of all delegation targets in a type satisfy a condition. -/
def TargetsIn (t : TypeExpr) (bound : String → Prop) : Prop :=
  ∀ m base targets, delegation m base targets ∈ t.subterms →
    ∀ u ∈ targets, ∀ letter, u.HasLetter letter → bound letter

/-- The letters of all delegation targets that stand in arguments satisfy a condition. -/
def ArgumentsIn (t : TypeExpr) (bound : String → Prop) : Prop :=
  ∀ m name args, reference m name args ∈ t.subterms → ∀ a ∈ args, a.TargetsIn bound

variable {t u : TypeExpr} {bound bound' : String → Prop}

lemma mem_subterms_trans {s : TypeExpr} (hu : u ∈ t.subterms) (hs : s ∈ u.subterms) :
    s ∈ t.subterms := by
  induction t using parts_induction with
  | step t ih =>
    rw [subterms_eq, List.mem_cons, List.mem_flatMap] at hu
    rcases hu with rfl | ⟨p, hp, hu⟩
    · exact hs
    · exact mem_subterms_of_part hp (ih p hp hu)

lemma HasLetter.of_subterm {letter : String} (hu : u ∈ t.subterms) (h : u.HasLetter letter) :
    t.HasLetter letter := by
  obtain ⟨m, v, hv, rfl⟩ := h
  exact ⟨m, v, mem_subterms_trans hu hv, rfl⟩

lemma TargetsIn.of_subterm (h : t.TargetsIn bound) (hu : u ∈ t.subterms) : u.TargetsIn bound :=
  fun m base targets hd => h m base targets (mem_subterms_trans hu hd)

/-- Only the letters of the type matter. -/
lemma TargetsIn.mono (h : t.TargetsIn bound)
    (sub : ∀ letter, t.HasLetter letter → bound letter → bound' letter) : t.TargetsIn bound' := by
  intro m base targets hd u hu letter hletter
  have inside : u ∈ t.subterms :=
    mem_subterms_trans hd (mem_subterms_of_part (List.mem_cons_of_mem _ hu) (mem_subterms_self u))
  exact sub letter (hletter.of_subterm inside) (h m base targets hd u hu letter hletter)

lemma TargetsIn.of_same (same : t.same u = true) (h : u.TargetsIn bound) : t.TargetsIn bound := by
  intro m base targets hd v hv letter hletter
  rcases exists_subterm_of_same same hd with ⟨n, hn⟩ | ⟨s, hs, hsame⟩
  · cases hn
  · cases alike_iff.2 hsame with
    | delegation _ htargets =>
      obtain ⟨w, hw, hvw⟩ := forall₂_exists_left htargets.flip v hv
      exact h _ _ _ hs w hw letter (hletter.of_same hvw)

end TypeExpr

open TypeExpr

/-- Names of declarations, and variables. -/
structure Realm where
  names : String → Prop
  vars : Variable → Prop

variable {R : Realm} {t u : TypeExpr} {bound bound' : String → Prop} {s s' : Store}
  {scope : Option String}

/-! ## Written types in a realm -/

/-- A written type of a realm: it refers to names of the realm only, its variables have no scope
yet, and the letters of delegation targets in arguments are bound. -/
structure Realm.Writes (R : Realm) (bound : String → Prop) (t : TypeExpr) : Prop where
  plain : ∀ s ∈ t.subterms, s.isReferring = false
  unscoped : t.Unscoped
  names : ∀ name, t.Mentions name → R.names name
  arguments : t.ArgumentsIn bound

namespace Realm.Writes

lemma of_subterm (h : R.Writes bound t) (hu : u ∈ t.subterms) : R.Writes bound u where
  plain s hs := h.plain s (mem_subterms_trans hu hs)
  unscoped m v hv := h.unscoped m v (mem_subterms_trans hu hv)
  names name hname := by
    obtain ⟨m, args, href⟩ := hname
    exact h.names name ⟨m, args, mem_subterms_trans hu href⟩
  arguments m name args href := h.arguments m name args (mem_subterms_trans hu href)

lemma part (h : R.Writes bound t) (hu : u ∈ t.parts) : R.Writes bound u :=
  h.of_subterm (mem_subterms_of_part hu (mem_subterms_self u))

/-- Only the letters of the type matter. -/
lemma mono (h : R.Writes bound t)
    (sub : ∀ letter, t.HasLetter letter → bound letter → bound' letter) : R.Writes bound' t where
  plain := h.plain
  unscoped := h.unscoped
  names := h.names
  arguments m name args href a ha := by
    have inside : a ∈ t.subterms :=
      mem_subterms_trans href (mem_subterms_of_part ha (mem_subterms_self a))
    exact (h.arguments m name args href a ha).mono fun letter hletter =>
      sub letter (hletter.of_subterm inside)

lemma grow {R' : Realm} (h : R.Writes bound t) (names : ∀ name, R.names name → R'.names name) :
    R'.Writes bound t :=
  ⟨h.plain, h.unscoped, fun name hname => names name (h.names name hname), h.arguments⟩

lemma of_same (same : t.same u = true) (h : R.Writes bound u) : R.Writes bound t where
  plain s hs := by
    rcases exists_subterm_of_same same hs with ⟨n, rfl⟩ | ⟨s', hs', hsame⟩
    · rfl
    · exact (isReferring_congr hsame).trans (h.plain s' hs')
  unscoped m v hv := by
    obtain ⟨m', hv'⟩ := exists_variable_of_same same hv
    exact h.unscoped m' v hv'
  names name hname := by
    obtain ⟨m, args, href⟩ := hname
    rcases exists_subterm_of_same same href with ⟨n, hn⟩ | ⟨s, hs, hsame⟩
    · cases hn
    · cases alike_iff.2 hsame with
      | reference => exact h.names name ⟨_, _, hs⟩
  arguments m name args href a ha := by
    rcases exists_subterm_of_same same href with ⟨n, hn⟩ | ⟨s, hs, hsame⟩
    · cases hn
    · cases alike_iff.2 hsame with
      | reference hargs =>
        obtain ⟨b, hb, hab⟩ := forall₂_exists_left hargs.flip a ha
        exact (h.arguments _ _ _ hs b hb).of_same hab

end Realm.Writes

/-! ## Resolved types whose targets are bound -/

/-- A resolved type of a realm in which all letters of suspended targets are bound.  Where a target
was suspended does not matter then. -/
inductive Realm.Seals (R : Realm) : TypeExpr → Prop
  | intro {t : TypeExpr} (var : ∀ m v, t = .typeVariable m v → R.vars v)
    (name : ∀ m name args, t = .named m name args → R.names name)
    (target : ∀ m target bindings, t = .deferred m target bindings →
      R.Writes (· ∈ Field.names bindings) target ∧
        ∀ letter, target.HasLetter letter → letter ∈ Field.names bindings)
    (bindings : ∀ m target bindings, t = .deferred m target bindings →
      ∀ b ∈ bindings, Seals R b.type)
    (parts : ∀ u ∈ t.parts, Seals R u) : Seals R t

namespace Realm.Seals

lemma part (h : R.Seals t) (hu : u ∈ t.parts) : R.Seals u := by
  obtain ⟨-, -, -, -, parts⟩ := h
  exact parts u hu

lemma named {m : Mark} {name : String} {args : List TypeExpr} (h : R.Seals (.named m name args)) :
    R.names name := by
  obtain ⟨-, hname, -, -, -⟩ := h
  exact hname m name args rfl

lemma letter {m : Mark} {v : Variable} (h : R.Seals (.typeVariable m v)) : R.vars v := by
  obtain ⟨hletter, -, -, -, -⟩ := h
  exact hletter m v rfl

/-- A node that is neither a variable nor refers to another one. -/
lemma of_parts (plain : t.isReferring = false) (other : ∀ m v, t ≠ .typeVariable m v)
    (parts : ∀ u ∈ t.parts, R.Seals u) : R.Seals t := by
  refine .intro (fun m v h => absurd h (other m v)) ?_ ?_ ?_ parts <;> rintro m _ _ rfl
    <;> cases plain

lemma number (x : Numeral) : R.Seals (.number x) := by
  induction x with
  | literal => exact .of_parts rfl (by simp) (by simp [TypeExpr.parts])
  | power _ b e hb he => exact .of_parts rfl (by simp) (by simp [TypeExpr.parts, hb, he])

lemma typeVariable {m : Mark} {v : Variable} (h : R.vars v) : R.Seals (.typeVariable m v) :=
  .intro (by rintro _ _ ⟨⟩; exact h) (by simp) (by simp) (by simp) (by simp [TypeExpr.parts])

lemma mono {R' : Realm} (h : R.Seals t) (names : ∀ name, R.names name → R'.names name)
    (vars : ∀ v, R.vars v → R'.vars v) : R'.Seals t := by
  induction h with
  | intro letter name target _ _ ihbindings ihparts =>
    exact .intro (fun m v ht => vars v (letter m v ht))
      (fun m n args ht => names n (name m n args ht))
      (fun m x bs ht => ⟨(target m x bs ht).1.grow names, (target m x bs ht).2⟩) ihbindings ihparts

/-- What equals a sealed type is sealed. -/
lemma of_same (same : t.same u = true) (hu : R.Seals u) : R.Seals t := by
  induction hu generalizing t with
  | @intro u letter name target bindings parts ihbindings ihparts =>
    have alike := alike_iff.2 same
    refine .intro ?_ ?_ ?_ ?_ fun p hp => ?_
    · rintro m v rfl
      cases alike
      exact letter _ v rfl
    · rintro m n args rfl
      cases alike
      exact name _ n _ rfl
    · rintro m x bs rfl
      cases alike with
      | @deferred _ m' _ x' _ bs' hx hbs =>
        obtain ⟨writes, letters⟩ := target m' x' bs' rfl
        have names (letter : String) (h : letter ∈ Field.names bs') : letter ∈ Field.names bs :=
          (Field.mem_names_congr hbs letter).2 h
        exact ⟨(writes.of_same hx).mono fun letter _ => names letter,
          fun letter h => names letter (letters letter (h.of_same hx))⟩
    · rintro m x bs rfl b hb
      cases alike with
      | @deferred _ m' _ x' _ bs' hx hbs =>
        obtain ⟨b', hb', hsame⟩ := exists_right_of_matchAll (rectangular_sameField _ _) hbs hb
        simp only [sameField, Bool.and_eq_true] at hsame
        exact ihbindings m' x' bs' rfl b' hb' hsame.2
    · rcases exists_part_of_same same hp with ⟨n, rfl⟩ | ⟨q, hq, hpq⟩
      · exact number n
      · exact ihparts q hq hpq

end Realm.Seals

/-! ## Environments -/

/-- An environment suits a type: what its letters are bound to is sealed, and a letter that is not
bound belongs to the realm, in the scope of the type. -/
structure Realm.Suits (R : Realm) (env : Env) (scope : Option String) (t : TypeExpr) : Prop where
  bound : ∀ {letter b}, t.HasLetter letter → Field.find? env letter = some b → R.Seals b
  free : ∀ {letter}, t.HasLetter letter → Field.find? env letter = none →
    R.vars ⟨letter, scope⟩

variable {env : Env}

/-- Whether a letter is bound in an environment. -/
abbrev Env.Binds (env : Env) (letter : String) : Prop :=
  (Field.find? env letter).isSome

lemma Realm.Suits.mono {R' : Realm} (h : R.Suits env scope t)
    (names : ∀ name, R.names name → R'.names name) (vars : ∀ v, R.vars v → R'.vars v) :
    R'.Suits env scope t where
  bound hletter hb := (h.bound hletter hb).mono names vars
  free hletter hnone := vars _ (h.free hletter hnone)

lemma Realm.Suits.of_subterm (h : R.Suits env scope t) (hu : u ∈ t.subterms) :
    R.Suits env scope u where
  bound hletter := h.bound (hletter.of_subterm hu)
  free hletter := h.free (hletter.of_subterm hu)

lemma Realm.Suits.part (h : R.Suits env scope t) (hu : u ∈ t.parts) : R.Suits env scope u :=
  h.of_subterm (mem_subterms_of_part hu (mem_subterms_self u))

lemma mem_names_targetBindings {target : TypeExpr} {letter : String} :
    letter ∈ Field.names (targetBindings env target) ↔
      target.HasLetter letter ∧ env.Binds letter := by
  simp only [Field.names, List.mem_map, mem_targetBindings, Env.Binds, Option.isSome_iff_exists]
  constructor
  · rintro ⟨f, ⟨hletter, hf⟩, rfl⟩
    exact ⟨hletter, f.type, hf⟩
  · rintro ⟨hletter, b, hb⟩
    exact ⟨⟨letter, b⟩, ⟨hletter, hb⟩, rfl⟩

/-! ## Instances -/

/-- A part of an instance is the instance of a part, unless the type is replaced as a whole or
suspended in part. -/
lemma exists_part_of_instantiate {p : TypeExpr} (variable' : ∀ m v, t ≠ .typeVariable m v)
    (delegation : ∀ m base targets, t ≠ .delegation m base targets)
    (predicate : ∀ m constraint body listed, t = .predicate m constraint body listed →
      (remaining env scope (quantified listed body)).isEmpty = false)
    (plain : t.isReferring = false) (hp : p ∈ (t.instantiate env scope).parts) :
    ∃ q ∈ t.parts, p = q.instantiate env scope := by
  cases t with
  | number x =>
    cases x with
    | literal => cases hp
    | power position b e =>
      simp only [instantiate, Numeral.evaluate] at hp
      split at hp
      · cases hp
      · simpa [parts, instantiate] using hp
  | interval | union | complement => simpa [parts, instantiate] using hp
  | unit | primitive => cases hp
  | tuple m items =>
    simpa [parts, instantiate, instantiateAll_eq, eq_comm] using hp
  | reference m name args => simpa [parts, instantiate, instantiateAll_eq, eq_comm] using hp
  | list m members =>
    have hp := withoutRepeats_subset _ hp
    simpa [parts, instantiateAll_eq, eq_comm] using hp
  | record m fields => simpa [parts, instantiate, instantiateFields_eq, eq_comm] using hp
  | function m inputs outputs =>
    simp only [parts, instantiate, instantiateInputs_eq, instantiateAll_eq, List.map_map,
      List.mem_append, List.mem_map] at hp ⊢
    rcases hp with ⟨i, hi, rfl⟩ | ⟨o, ho, rfl⟩
    · exact ⟨i.type, .inl ⟨i, hi, rfl⟩, rfl⟩
    · exact ⟨o, .inr ho, rfl⟩
  | delegation m base targets => exact absurd rfl (delegation m base targets)
  | predicate m constraint body listed =>
    simp only [instantiate, predicate m constraint body listed rfl, Bool.false_eq_true,
      if_false] at hp
    simpa [parts] using hp
  | tagged m tags =>
    simp only [parts, instantiate, instantiateTags_eq, List.mem_flatMap, List.mem_map] at hp ⊢
    obtain ⟨g, ⟨k, hk, rfl⟩, hp⟩ := hp
    obtain ⟨q, hq, rfl⟩ := List.mem_map.1 hp
    exact ⟨q, ⟨k, hk, hq⟩, rfl⟩
  | typeVariable m v => exact absurd rfl (variable' m v)
  | named | deferred => cases plain

/-- A target whose letters are all bound is sealed where it is suspended. -/
lemma Realm.Writes.seals_suspended {target : TypeExpr} (h : R.Writes env.Binds target)
    (suits : R.Suits env scope target)
    (bound : ∀ letter, target.HasLetter letter → env.Binds letter) :
    R.Seals (suspended env target) := by
  refine .intro (by rintro _ _ ⟨⟩) (by rintro _ _ _ ⟨⟩) ?_ ?_ (by simp [suspended, parts])
  · rintro _ _ _ ⟨⟩
    exact ⟨h.mono fun letter hletter hbound => mem_names_targetBindings.2 ⟨hletter, hbound⟩,
      fun letter hletter => mem_names_targetBindings.2 ⟨hletter, bound letter hletter⟩⟩
  · rintro _ _ _ ⟨⟩ f hf
    obtain ⟨hletter, hfind⟩ := mem_targetBindings.1 hf
    exact suits.bound hletter hfind

/-- The instance of a type whose targets are bound is sealed. -/
lemma Realm.Writes.seals_instantiate (h : R.Writes env.Binds t) (targets : t.TargetsIn env.Binds)
    (suits : R.Suits env scope t) : R.Seals (t.instantiate env scope) := by
  induction t using parts_induction with
  | step t ih =>
    have inner : ∀ u ∈ t.parts, R.Seals (u.instantiate env scope) := fun u hu =>
      ih u hu (h.part hu) (targets.of_subterm (mem_subterms_of_part hu (mem_subterms_self u)))
        (suits.part hu)
    have built (variable' : ∀ m v, t ≠ .typeVariable m v)
        (delegation : ∀ m base targets, t ≠ .delegation m base targets)
        (predicate : ∀ m constraint body listed, t = .predicate m constraint body listed →
          (remaining env scope (quantified listed body)).isEmpty = false) :
        ∀ p ∈ (t.instantiate env scope).parts, R.Seals p := fun p hp => by
      obtain ⟨q, hq, rfl⟩ := exists_part_of_instantiate variable' delegation predicate
        (h.plain t (mem_subterms_self t)) hp
      exact inner q hq
    cases t with
    | typeVariable m v =>
      have unscoped : v.scope = none := h.unscoped m v (mem_subterms_self _)
      have letter : (TypeExpr.typeVariable m v).HasLetter v.letter :=
        ⟨m, v, mem_subterms_self _, rfl⟩
      simp only [instantiate, unscoped, Option.isSome_none, Bool.false_eq_true, if_false]
      cases hfind : Field.find? env v.letter with
      | some b => exact suits.bound letter hfind
      | none => exact .typeVariable (suits.free letter hfind)
    | reference m name args =>
      refine .intro (by rintro _ _ ⟨⟩) ?_ (by rintro _ _ _ ⟨⟩) (by rintro _ _ _ ⟨⟩)
        (built (by simp) (by simp) (by simp))
      rintro _ _ _ ⟨⟩
      exact h.names name ⟨m, args, mem_subterms_self _⟩
    | delegation m base ts =>
      refine .of_parts rfl (by rintro _ _ ⟨⟩) fun p hp => ?_
      simp only [instantiate, parts, List.mem_cons, List.mem_map] at hp
      rcases hp with rfl | ⟨target, htarget, rfl⟩
      · exact inner base List.mem_cons_self
      · have hmem : target ∈ (TypeExpr.delegation m base ts).parts := List.mem_cons_of_mem _ htarget
        exact (h.part hmem).seals_suspended (suits.part hmem)
          (targets m base ts (mem_subterms_self _) target htarget)
    | predicate m constraint body listed =>
      cases hfree : (remaining env scope (quantified listed body)).isEmpty with
      | true =>
        simp only [instantiate, hfree, if_true]
        exact inner body (by simp [parts])
      | false =>
        have parts := built (by simp) (by simp) (by rintro _ _ _ _ ⟨⟩; exact hfree)
        simp only [instantiate, hfree, Bool.false_eq_true, if_false] at parts ⊢
        exact .of_parts rfl (by rintro _ _ ⟨⟩) parts
    | named | deferred => cases h.plain _ (mem_subterms_self _)
    | _ => exact .of_parts rfl (by rintro _ _ ⟨⟩) (built (by simp) (by simp) (by simp))

/-! ## Resolved types -/

/-- A resolved type that stays in a realm.  A suspended target outside of arguments may have letters
that are not bound; they belong to the realm in the scope where it was suspended. -/
inductive Realm.Keeps (R : Realm) (s : Store) : TypeExpr → Prop
  | sealed {t : TypeExpr} (h : R.Seals t) : Keeps R s t
  | deferred {m : Mark} {target : TypeExpr} {env : Env} {scope : Option String}
    (placed : m.stamp < s.nextStamp)
    (h : s.suspensions[m.stamp]? = some ⟨target, env, scope⟩) (writes : R.Writes env.Binds target)
    (suits : R.Suits env scope target) : Keeps R s (.deferred m target (targetBindings env target))
  | node {t : TypeExpr} (plain : t.isReferring = false) (other : ∀ m v, t ≠ .typeVariable m v)
    (parts : ∀ u ∈ t.parts, Keeps R s u) : Keeps R s t

namespace Realm

lemma Keeps.part (h : R.Keeps s t) (hu : u ∈ t.parts) : R.Keeps s u := by
  cases h with
  | sealed h => exact .sealed (h.part hu)
  | deferred => cases hu
  | node _ _ parts => exact parts u hu

/-- Nothing changes for nodes that exist, and the realm may grow. -/
lemma Keeps.mono {R' : Realm} (h : R.Keeps s t) (names : ∀ name, R.names name → R'.names name)
    (vars : ∀ v, R.vars v → R'.vars v) (next : s.nextStamp ≤ s'.nextStamp)
    (suspensions : ∀ n < s.nextStamp, s'.suspensions[n]? = s.suspensions[n]?) : R'.Keeps s' t := by
  induction h with
  | sealed h => exact .sealed (h.mono names vars)
  | deferred placed h writes suits =>
    exact .deferred (Nat.lt_of_lt_of_le placed next) ((suspensions _ placed).trans h)
      (writes.grow names) (suits.mono names vars)
  | node plain other _ ih => exact .node plain other ih

lemma Keeps.letter {m : Mark} {v : Variable} (h : R.Keeps s (.typeVariable m v)) : R.vars v := by
  cases h with
  | sealed h => exact h.letter
  | node _ other => exact absurd rfl (other m v)

/-- Named types are sealed. -/
lemma Keeps.seals {m : Mark} {name : String} {args : List TypeExpr}
    (h : R.Keeps s (.named m name args)) : R.Seals (.named m name args) := by
  cases h with
  | sealed h => exact h
  | node plain => cases plain

/-- What is suspended like a target of the realm stays in the realm, if it was suspended in the same
scope. -/
lemma Writes.keeps_suspended {target : TypeExpr} (h : R.Writes env.Binds target)
    (suits : R.Suits env scope target) (same : u.same (suspended env target) = true)
    (home : u.Home s scope R.Seals) : R.Keeps s u := by
  cases home with
  | guest h => exact .sealed h
  | named => cases alike_iff.2 same
  | @deferred m target' env' placed hx =>
    cases alike_iff.2 same with
    | deferred htarget hbindings =>
      have bound {letter b} (hletter : target'.HasLetter letter)
          (hb : Field.find? env' letter = some b) :
          ∃ b', Field.find? env letter = some b' ∧ b.same b' = true := by
        obtain ⟨f, hf, hsame⟩ := exists_right_of_matchAll (rectangular_sameField _ _) hbindings
          (mem_targetBindings.2 ⟨hletter, hb⟩ : (⟨letter, b⟩ : Field TypeExpr) ∈ _)
        simp only [sameField, Bool.and_eq_true, decide_eq_true_eq] at hsame
        obtain ⟨hname, hsame⟩ := hsame
        exact ⟨f.type, by rw [hname]; exact (mem_targetBindings.1 hf).2, hsame⟩
      have binds {letter} (hletter : target'.HasLetter letter) :
          env'.Binds letter ↔ env.Binds letter := by
        have names := Field.mem_names_congr hbindings letter
        simp only [mem_names_targetBindings, hletter, hletter.of_same htarget, true_and] at names
        exact names
      refine .deferred placed hx
        ((h.of_same htarget).mono fun letter hletter => (binds hletter).2) ⟨?_, ?_⟩
      · intro letter b hletter hb
        obtain ⟨b', hb', hsame⟩ := bound hletter hb
        exact (suits.bound (hletter.of_same htarget) hb').of_same hsame
      · intro letter hletter hnone
        refine suits.free (hletter.of_same htarget) ?_
        have unbound : ¬ env'.Binds letter := by simp [Env.Binds, hnone]
        rw [binds hletter] at unbound
        simpa [Env.Binds] using unbound
  | node plain => cases (isReferring_congr same).symm.trans plain

/-- What equals the instance of a type of the realm, and is at home where the type was expanded,
stays in the realm. -/
lemma Writes.keeps_of_same (h : R.Writes env.Binds t) (suits : R.Suits env scope t)
    (same : u.same (t.instantiate env scope) = true) (home : u.Home s scope R.Seals) :
    R.Keeps s u := by
  induction t using parts_induction generalizing u with
  | step t ih =>
    have whole (targets : t.TargetsIn env.Binds) : R.Keeps s u :=
      .sealed ((h.seals_instantiate targets suits).of_same same)
    have built (variable' : ∀ m v, t ≠ .typeVariable m v)
        (delegation : ∀ m base targets, t ≠ .delegation m base targets)
        (predicate : ∀ m constraint body listed, t = .predicate m constraint body listed →
          (remaining env scope (quantified listed body)).isEmpty = false)
        (plain : (t.instantiate env scope).isReferring = false)
        (other : ∀ m v, t.instantiate env scope ≠ .typeVariable m v) : R.Keeps s u := by
      have plain' : u.isReferring = false := (isReferring_congr same).trans plain
      cases home with
      | guest h => exact .sealed h
      | named | deferred => cases plain'
      | node _ homes =>
        refine .node plain' ?_ fun p hp => ?_
        · rintro m v rfl
          have alike := alike_iff.2 same
          generalize t.instantiate env scope = i at alike other
          cases alike
          exact other _ v rfl
        · rcases exists_part_of_same same hp with ⟨n, rfl⟩ | ⟨q, hq, hpq⟩
          · exact .sealed (.number n)
          · obtain ⟨r, hr, rfl⟩ := exists_part_of_instantiate variable' delegation predicate
              (h.plain t (mem_subterms_self t)) hq
            exact ih r hr (h.part hr) (suits.part hr) hpq (homes p hp)
    cases t with
    | typeVariable m v =>
      refine whole fun m' base targets hd => ?_
      simp [subterms_eq (.typeVariable m v), parts] at hd
    | reference m name args =>
      refine whole fun m' base targets hd => ?_
      rw [subterms_eq, List.mem_cons, List.mem_flatMap] at hd
      rcases hd with hd | ⟨a, ha, hd⟩
      · cases hd
      · exact h.arguments m name args (mem_subterms_self _) a ha m' base targets hd
    | delegation m base targets =>
      cases home with
      | guest h => exact .sealed h
      | named | deferred => cases alike_iff.2 same
      | node _ homes =>
        cases alike_iff.2 same with
        | @delegation m' _ base' _ targets' _ hbase htargets =>
          refine .node rfl (by rintro _ _ ⟨⟩) fun p hp => ?_
          have home := homes p hp
          rcases List.mem_cons.1 hp with rfl | hp
          · have hmem : base ∈ (TypeExpr.delegation m base targets).parts := List.mem_cons_self
            exact ih base hmem (h.part hmem) (suits.part hmem) hbase home
          · obtain ⟨q, hq, hpq⟩ := forall₂_exists_left htargets.flip p hp
            obtain ⟨target, htarget, rfl⟩ := List.mem_map.1 hq
            have hmem : target ∈ (TypeExpr.delegation m base targets).parts :=
              List.mem_cons_of_mem _ htarget
            exact (h.part hmem).keeps_suspended (suits.part hmem) hpq home
    | predicate m constraint body listed =>
      cases hfree : (remaining env scope (quantified listed body)).isEmpty with
      | true =>
        have hmem : body ∈ (TypeExpr.predicate m constraint body listed).parts := by simp [parts]
        simp only [instantiate, hfree, if_true] at same
        exact ih body hmem (h.part hmem) (suits.part hmem) same home
      | false =>
        refine built (by simp) (by simp) (by rintro _ _ _ _ ⟨⟩; exact hfree) ?_ ?_ <;>
          simp [instantiate, hfree, isReferring]
    | named | deferred => cases h.plain _ (mem_subterms_self _)
    | _ => exact built (by simp) (by simp) (by simp) rfl (by rintro _ _ ⟨⟩)

/-! ## Closed realms -/

/-- A realm is closed if the bodies of its declarations are types of the realm, and their letters,
other than the parameters, belong to it. -/
structure Closed (R : Realm) (registry : Registry) : Prop where
  body : ∀ {name d}, R.names name → registry.lookup name = some d → R.Writes (· ∈ d.letters) d.body
  free : ∀ {name d letter}, R.names name → registry.lookup name = some d →
    d.body.HasLetter letter → letter ∉ d.letters → R.vars ⟨letter, some name⟩

end Realm

namespace Declaration

/-- Exactly the parameters are bound. -/
lemma binds_binding (d : Declaration) {args : List TypeExpr} (arity : args.length = d.arity)
    {letter : String} : (d.binding args).Binds letter ↔ letter ∈ d.letters := by
  rw [← List.mem_reverse, ← d.names_binding arity, Env.Binds, ← Option.ne_none_iff_isSome, Ne,
    Field.find?_eq_none, not_not]

end Declaration

namespace Realm

variable {registry : Registry} {K : Nodes}

/-- What an instance of a type takes over from its environment is sealed. -/
lemma Suits.seals_guest (suits : R.Suits env scope t) (h : R.Writes bound t) (g : TypeExpr)
    (hg : t.Guest env g) : R.Seals g := by
  rcases hg with ⟨letter, hletter, hfind⟩ | ⟨href, hmem⟩
  · exact suits.bound hletter hfind
  · cases (h.plain g hmem).symm.trans href

/-- The body of a named type of a closed realm stays in the realm. -/
lemma Closed.keeps_body (closed : R.Closed registry) (wired : Wired registry K s) {m : Mark}
    {name : String} {args : List TypeExpr} (hnode : K (.named m name args))
    (h : R.Seals (.named m name args)) {b : TypeExpr} (hb : s.heap.body? m.stamp = some b) :
    R.Keeps s b := by
  obtain ⟨d, hd, harity, declared⟩ := wired.declared hnode
  obtain ⟨-, same⟩ := declared b hb
  have writes := closed.body h.named hd
  have hname : d.name = name := by simpa using List.find?_some hd
  have suits : R.Suits (d.binding args) (some d.name) d.body := {
    bound := fun _ hfind => by
      obtain ⟨f, hf, -, rfl⟩ := Field.exists_of_find? hfind
      exact h.part (d.type_mem_of_mem_binding hf)
    free := fun {letter} hletter hnone => by
      rw [hname]
      refine closed.free h.named hd hletter fun hmem => ?_
      have bound := (d.binds_binding harity).2 hmem
      simp [Env.Binds, hnone] at bound }
  have home := wired.bodyHome hnode hb hd
  exact (writes.mono fun letter _ => (d.binds_binding harity).2).keeps_of_same suits same
    (home.mono (suits.seals_guest writes))

/-- The result of a suspended target that stays in a realm stays in the realm. -/
lemma keeps_result (wired : Wired registry K s) {m : Mark} {target r : TypeExpr}
    {bindings : List (Field TypeExpr)} (hnode : K (.deferred m target bindings))
    (h : R.Keeps s (.deferred m target bindings)) (hr : s.heap.result? m.stamp = some r) :
    R.Keeps s r := by
  obtain ⟨x, hx, -, -⟩ := wired.suspended hnode
  obtain ⟨rfl, hbindings⟩ := wired.linked hnode hx
  have ready : R.Writes x.env.Binds x.target ∧ R.Suits x.env x.scope x.target := by
    cases h with
    | sealed h =>
      obtain ⟨-, -, target, bindings', -⟩ := h
      obtain ⟨writes, letters⟩ := target _ _ _ rfl
      have bound {letter} (h : letter ∈ Field.names bindings) : x.env.Binds letter := by
        rw [← hbindings] at h
        exact (mem_names_targetBindings.1 h).2
      refine ⟨writes.mono fun _ _ => bound, fun {letter b} hletter hb => ?_,
        fun {letter} hletter hnone => ?_⟩
      · refine bindings' _ _ _ rfl ⟨letter, b⟩ ?_
        rw [← hbindings]
        exact mem_targetBindings.2 ⟨hletter, hb⟩
      · have := bound (letters letter hletter)
        simp [Env.Binds, hnone] at this
    | @deferred _ _ env scope placed hx' writes suits =>
      have hx' : x = ⟨x.target, env, scope⟩ := Option.some.inj (hx.symm.trans hx')
      rw [hx']
      exact ⟨writes, suits⟩
    | node plain => cases plain
  exact ready.1.keeps_of_same ready.2 (wired.faithful hnode hr hx)
    ((wired.resultHome hnode hr hx).mono (ready.2.seals_guest ready.1))

end Realm

end TypeNotation
