import TypeNotation.Proofs.Resolution.Budget
import TypeNotation.Proofs.Resolution.Direct

/-!
# What expanding suspends

Expanding a written type suspends written targets only, in environments of direct types: what a
variable is bound to has been expanded, and is never a suspended target itself.  So the result of a
suspended target is direct as well, and from there the next suspended target is only reached through
a delegation.

Expanding leaves the results on the heap as they are, since it resolves no suspended target.
-/

namespace TypeNotation

open TypeExpr

/-- An environment of direct types. -/
abbrev Env.Direct (env : Env) : Prop :=
  ∀ f ∈ env, f.type.Direct

/-- A store where only written targets are suspended, in environments of direct types. -/
def Store.Direct (s : Store) : Prop :=
  ∀ {n : Nat} {x : Suspension}, s.suspensions[n]? = some x → x.target.Written ∧ Env.Direct x.env

namespace Expansion

variable {α β γ : Type} {registry : Registry} {env : Env} {scope : Option String}

/-- A step that keeps a store direct and the results as they are.  What it answers satisfies a
condition. -/
def StaysDirect (x : Expansion α) (Post : α → Prop) : Prop :=
  ∀ e : Expanding, e.store.Direct → (outcome x e).2.store.Direct ∧
    (outcome x e).2.store.heap.results = e.store.heap.results ∧
      ∀ a, (outcome x e).1 = .ok a → Post a

/-! ## Steps -/

lemma staysDirect_pure {Post : α → Prop} {a : α} (h : Post a) : StaysDirect (pure a) Post :=
  fun _ he => ⟨he, rfl, fun b hb => by cases hb; exact h⟩

lemma staysDirect_throw {Post : α → Prop} (fault : Fault) : StaysDirect (throw fault) Post :=
  fun _ he => ⟨he, rfl, fun _ hb => by cases hb⟩

lemma StaysDirect.bind {x : Expansion α} {f : α → Expansion β} {Mid : α → Prop} {Post : β → Prop}
    (hx : StaysDirect x Mid) (hf : ∀ a, Mid a → StaysDirect (f a) Post) :
    StaysDirect (x >>= f) Post := by
  intro e he
  obtain ⟨direct, results, mid⟩ := hx e he
  rw [outcome_bind]
  rcases hout : outcome x e with ⟨fault | a, e₁⟩ <;> rw [hout] at direct results mid
  · exact ⟨direct, results, fun _ hb => by cases hb⟩
  · obtain ⟨direct', results', post⟩ := hf a (mid a rfl) e₁ direct
    exact ⟨direct', results'.trans results, post⟩

lemma staysDirect_remark (m : Mark) : StaysDirect (remark m) fun _ => True :=
  fun _ he => ⟨he, rfl, fun _ _ => trivial⟩

lemma staysDirect_mapM {f : β → Expansion γ} {P : β → γ → Prop} {xs : List β}
    (h : ∀ x ∈ xs, StaysDirect (f x) (P x)) :
    StaysDirect (xs.mapM f) fun ys => List.Forall₂ P xs ys := by
  induction xs with
  | nil => exact staysDirect_pure .nil
  | cons x xs ih =>
    rw [List.mapM_cons]
    refine (h x List.mem_cons_self).bind fun y hy => ?_
    refine (ih fun x' hx' => h x' (List.mem_cons_of_mem _ hx')).bind fun ys hys => ?_
    exact staysDirect_pure (.cons hy hys)

lemma staysDirect_numeral (x : Numeral) : StaysDirect (numeral x) fun _ => True := by
  induction x with
  | literal position v => exact staysDirect_pure trivial
  | power position b e hb he =>
    simp only [numeral]
    rcases (Numeral.power position b e).value? with fault | (_ | v)
    · cases fault <;> exact staysDirect_throw _
    · exact hb.bind fun y _ => he.bind fun z _ => staysDirect_pure trivial
    · exact staysDirect_pure trivial

lemma staysDirect_interval (m : Mark) (low high : Numeral) :
    StaysDirect (interval m low high) Direct := by
  unfold interval
  refine (staysDirect_numeral low).bind fun l _ => (staysDirect_numeral high).bind fun h _ => ?_
  by_cases hnan : (l.isNaN || h.isNaN) = true
  · simp only [hnan, if_true]
    exact StaysDirect.bind (staysDirect_throw _) fun _ h => False.elim h
  · simp only [hnan, Bool.false_eq_true, if_false]
    rcases l.compare h with fault | o
    · cases fault <;> exact staysDirect_throw _
    · cases o with
      | lt =>
        refine (staysDirect_remark m).bind fun _ _ =>
          staysDirect_pure (.of_parts (by simp) (by simp) ?_)
        simp [parts, direct_number]
      | eq | gt => exact staysDirect_throw _

lemma staysDirect_typeVariable (henv : Env.Direct env) (m : Mark) (v : Variable) :
    StaysDirect (typeVariable env scope m v) Direct := by
  have leaf (m : Mark) (v : Variable) : (TypeExpr.typeVariable m v).Direct :=
    .of_parts (by simp) (by simp) (by simp [parts])
  unfold typeVariable
  split
  · exact staysDirect_pure (leaf m v)
  · cases hfind : Field.find? env v.letter with
    | some t =>
      simp only [Field.find?, Option.map_eq_some_iff] at hfind
      obtain ⟨f, hf, rfl⟩ := hfind
      exact staysDirect_pure (henv f (List.mem_of_find?_eq_some hf))
    | none => exact (staysDirect_remark m).bind fun _ _ => staysDirect_pure (leaf _ _)

lemma staysDirect_predicate (m : Mark) (binders : List Binder) {constraint body : TypeExpr}
    (hc : constraint.Direct) (hb : body.Direct) :
    StaysDirect (predicate env scope m binders constraint body) Direct := by
  have noted (more : List Condition) :
      StaysDirect (modifyResolver fun r => { r with pending := r.pending ++ more }) fun _ => True :=
    fun _ he => ⟨he, rfl, fun _ _ => trivial⟩
  unfold predicate
  refine (noted _).bind fun _ _ => ?_
  dsimp only
  split
  · exact staysDirect_pure hb
  · refine (staysDirect_remark m).bind fun _ _ =>
      staysDirect_pure (.of_parts (by simp) (by simp) ?_)
    simp [parts, hc, hb]

/-- A written target may be suspended in an environment of direct types. -/
lemma staysDirect_suspend (henv : Env.Direct env) {target : TypeExpr} (ht : target.Written) :
    StaysDirect (suspend env scope target) fun t => t.isDeferred := by
  intro e he
  rw [outcome_suspend]
  refine ⟨fun {n x} hx => ?_, rfl, by rintro _ ⟨⟩; rfl⟩
  simp only [withSuspension, Std.HashMap.getElem?_insert] at hx
  split at hx
  · cases hx
    exact ⟨ht, henv⟩
  · exact he hx

/-! ## Types -/

lemma mem_of_mem_zipWith {g : β → TypeExpr → γ} {type : γ → TypeExpr}
    (htype : ∀ b u, type (g b u) = u) {bs : List β} {us : List TypeExpr} {u : TypeExpr}
    (hu : u ∈ (bs.zipWith g us).map type) : u ∈ us := by
  rw [List.map_zipWith] at hu
  simp only [htype] at hu
  induction bs generalizing us with
  | nil => simp at hu
  | cons b bs ih =>
    cases us with
    | nil => simp at hu
    | cons v us =>
      rw [List.zipWith_cons_cons, List.mem_cons] at hu
      rcases hu with rfl | hu
      · exact List.mem_cons_self
      · exact List.mem_cons_of_mem _ (ih hu)

lemma mem_of_mem_refill {gs : List (Tag TypeExpr)} {us : List TypeExpr} {u : TypeExpr}
    (hu : u ∈ (Tag.refill gs us).flatMap (·.fields)) : u ∈ us := by
  induction gs generalizing us with
  | nil => simp [Tag.refill] at hu
  | cons g gs ih =>
    rw [Tag.refill, List.flatMap_cons, List.mem_append] at hu
    rcases hu with hu | hu
    · exact List.mem_of_mem_take hu
    · exact List.mem_of_mem_drop (ih hu)

/-- What is made out of direct types is direct. -/
lemma staysDirect_assemble (henv : Env.Direct env) {t : TypeExpr} (ht : t.Written)
    (href : ∀ m name args, t ≠ .reference m name args) {us : List TypeExpr}
    (hus : List.Forall₂ (fun _ u => Direct u) t.visited us) :
    StaysDirect (assemble env scope t us) Direct := by
  have each : ∀ u ∈ us, u.Direct := fun u hu => by
    obtain ⟨_, -, h⟩ := forall₂_exists_left hus u hu
    exact h
  cases t with
  | number x => exact (staysDirect_numeral x).bind fun y _ => staysDirect_pure (direct_number y)
  | interval m low high => exact staysDirect_interval m low high
  | unit | primitive => exact staysDirect_pure (.of_parts (by simp) (by simp) (by simp [parts]))
  | tuple m ts =>
    exact (staysDirect_remark m).bind fun _ _ =>
      staysDirect_pure (.of_parts (by simp) (by simp) each)
  | list m ts =>
    refine (staysDirect_remark m).bind fun _ _ =>
      staysDirect_pure (.of_parts (by simp [listOf]) (by simp [listOf]) fun u hu => ?_)
    exact each u (withoutRepeats_subset us hu)
  | record m fs =>
    refine (staysDirect_remark m).bind fun _ _ =>
      staysDirect_pure (.of_parts (by simp) (by simp) fun u hu => ?_)
    exact each u (mem_of_mem_zipWith (fun _ _ => rfl) hu)
  | function m ps ts =>
    refine (staysDirect_remark m).bind fun _ _ =>
      staysDirect_pure (.of_parts (by simp) (by simp) fun u hu => ?_)
    rcases List.mem_append.1 hu with hu | hu
    · exact each u (mem_of_mem_zipWith (fun _ _ => rfl) hu)
    · exact each u (List.mem_of_mem_drop hu)
  | delegation m base targets =>
    obtain ⟨b, _, hb, ⟨⟩, rfl⟩ := List.forall₂_cons_left_iff.1 hus
    have written : ∀ t ∈ targets, t.Written := fun t hmem => ht.part (List.mem_cons_of_mem _ hmem)
    refine (staysDirect_mapM fun t hmem => staysDirect_suspend henv (written t hmem)).bind
      fun ts hts => (staysDirect_remark m).bind fun _ _ => staysDirect_pure ?_
    refine .intro (by simp) ?_ (List.forall_mem_singleton.2 hb)
    rintro _ _ _ ⟨⟩ u hu
    obtain ⟨_, -, h⟩ := forall₂_exists_left hts u hu
    exact h
  | predicate m constraint body listed =>
    obtain ⟨c, b, rfl⟩ : ∃ c b, us = [c, b] := List.length_eq_two.1 hus.length_eq.symm
    exact staysDirect_predicate m _ (each _ (by simp)) (each _ (by simp))
  | tagged m gs =>
    refine (staysDirect_remark m).bind fun _ _ =>
      staysDirect_pure (.of_parts (by simp) (by simp) fun u hu => ?_)
    exact each u (mem_of_mem_refill hu)
  | union m left right | complement m left right =>
    obtain ⟨l, r, rfl⟩ : ∃ l r, us = [l, r] := List.length_eq_two.1 hus.length_eq.symm
    exact (staysDirect_remark m).bind fun _ _ =>
      staysDirect_pure (.of_parts (by simp) (by simp) each)
  | reference m name args => exact absurd rfl (href m name args)
  | typeVariable m v => exact staysDirect_typeVariable henv m v
  | named | deferred => exact ht.self.elim

/-- Expanding a written type in an environment of direct types keeps a store direct. -/
def OpensDirect (opening : Opening) : Prop :=
  ∀ t env scope, t.Written → Env.Direct env → StaysDirect (opening t env scope) Direct

lemma staysDirect_reference {opening : Option Opening} (hopen : ∀ o ∈ opening, OpensDirect o)
    (depth : Nat) (m : Mark) {d : Declaration} (hd : d.body.Written) {args : List TypeExpr}
    (hargs : ∀ a ∈ args, a.Direct) :
    StaysDirect (reference registry depth opening m d args) Direct := by
  have named (m : Mark) : (TypeExpr.named m d.name args).Direct :=
    .of_parts (by simp) (by simp) hargs
  intro e he
  rw [outcome_reference]
  cases hknown : known? registry e (.named m d.name args) with
  | some t =>
    refine ⟨he, rfl, ?_⟩
    rintro _ ⟨⟩
    exact (named m).of_same (Metered.same_of_known? hknown)
  | none =>
    cases opening with
    | none => exact ⟨he, rfl, fun _ h => by cases h⟩
    | some expandBody =>
      dsimp only
      split
      · exact ⟨he, rfl, fun _ h => by cases h⟩
      · obtain ⟨he', results, -⟩ := hopen expandBody rfl d.body (d.binding args) (some d.name) hd
          (d.direct_binding hargs) (enter e (.named ⟨m.position, e.store.nextStamp⟩ d.name args)) he
        rcases hout : outcome (expandBody d.body (d.binding args) (some d.name))
          (enter e (.named ⟨m.position, e.store.nextStamp⟩ d.name args)) with ⟨fault | body, e'⟩ <;>
            rw [hout] at he' results
        · exact ⟨he', results, fun _ h => by cases h⟩
        · refine ⟨he', results, ?_⟩
          rintro _ ⟨⟩
          exact named _

lemma staysDirect_declarationOf (written : registry.Written) (m : Mark) (name : String)
    (given : Nat) : StaysDirect (declarationOf registry m name given) fun d => d.body.Written := by
  unfold declarationOf
  cases hd : registry.lookup name with
  | none => exact staysDirect_throw _
  | some d =>
    dsimp only
    split
    · exact staysDirect_pure (written.lookup hd)
    · exact staysDirect_throw _

lemma staysDirect_expandIn (written : registry.Written) {opening : Option Opening}
    (hopen : ∀ o ∈ opening, OpensDirect o) (depth : Nat) (henv : Env.Direct env) {t : TypeExpr}
    (ht : t.Written) : StaysDirect (expandIn registry depth opening env scope t) Direct := by
  induction t using parts_induction with
  | step t ih =>
    have visited : StaysDirect (t.visited.mapM (expandIn registry depth opening env scope))
        fun us => List.Forall₂ (fun _ u => Direct u) t.visited us :=
      staysDirect_mapM fun u hu =>
        ih u (visited_subset_parts t hu) (ht.part (visited_subset_parts t hu))
    cases t with
    | reference m name args =>
      simp only [expandIn, expandAll_eq]
      refine (staysDirect_declarationOf written m name args.length).bind fun d hd =>
        visited.bind fun us hus => staysDirect_reference hopen depth m hd fun u hu => ?_
      obtain ⟨_, -, h⟩ := forall₂_exists_left hus u hu
      exact h
    | _ =>
      rw [expandIn_eq _ (by simp)]
      exact visited.bind fun us hus => staysDirect_assemble henv ht (by simp) hus

lemma opensDirect_expandAt (written : registry.Written) (room depth : Nat) :
    OpensDirect fun t env scope => expandAt registry room depth env scope t := by
  induction room generalizing depth with
  | zero => exact fun t env scope ht henv => staysDirect_expandIn written (by simp) depth henv ht
  | succ room ih =>
    refine fun t env scope ht henv => staysDirect_expandIn written (fun o ho => ?_) depth henv ht
    cases ho
    exact ih (depth + 1)

/-- Expanding a written type in an environment of direct types keeps a store direct and the results
as they are. -/
lemma staysDirect_expand (written : registry.Written) (henv : Env.Direct env) {t : TypeExpr}
    (ht : t.Written) : StaysDirect (expand registry env scope t) Direct := by
  intro e he
  rw [expand, outcome_bind, outcome_get]
  exact opensDirect_expandAt written e.resolver.maxDepth 0 t env scope ht henv e he

end Expansion

end TypeNotation
