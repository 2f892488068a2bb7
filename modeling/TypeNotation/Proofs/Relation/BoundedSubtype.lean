import TypeNotation.Proofs.Relation.Inhabits
import TypeNotation.Proofs.Relation.Soundness

/-!
# Subtyping under bounds is sound where every variable has one bound

Where every variable has one bound, whatever is found to be a subtype holds no value that the other
does not hold.  The bounds of the two sides may differ on the way, but only in what has been looked
at so far: on the left they are bounds of the set, and on the right they cover the type.

An assumed pair may be relied on for values that are seen to be in the subject in fewer steps, since
for these the pair itself has been asked about.  A subject that is taken apart needs fewer steps.
While only the object is taken apart, it leads away from that of the assumed pair, to which it does
not come back.
-/

namespace TypeNotation

open TypeExpr Query

namespace Matcher

variable {m : Matcher} {K : TypeExpr → Prop} {a b : TypeExpr} {v : Value} {n n' : Nat}
  {p : TypeExpr × TypeExpr}

/-- A value that is seen to be in one type within so many steps is in another. -/
def BelowIn (m : Matcher) (K : TypeExpr → Prop) (n : Nat) (a b : TypeExpr) : Prop :=
  ∀ ⦃v⦄, m.InhabitsIn K n v a → m.Inhabits K v b

/-! ## Structures -/

/-- Structures that are found to be subtypes hold no value that the supertype does not hold, if that
is so for their parts and fewer steps. -/
lemma structureRule_belowIn {sub : TypeExpr → TypeExpr → Query Bool} (bounded : m.heap.Bounded K)
    (ha : K a) (hb : K b)
    (hsub : ∀ x ∈ a.valueParts, ∀ y ∈ b.valueParts, sub x y = .ok true → m.BelowIn K n x y)
    (h : m.structureRule sub a b = .ok true) : m.BelowIn K (n + 1) a b := by
  intro v hin
  cases a with
  | number x =>
    obtain ⟨p, x, rfl⟩ := bounded.number ha
    obtain ⟨z, rfl, hz⟩ := holdsNumeral_eq_true.1 hin
    cases b with
    | number y =>
      obtain ⟨q, y, rfl⟩ := bounded.number hb
      exact ⟨1, holdsNumeral_eq_true.2 ⟨z, rfl, same_of_numeralRule h hz⟩⟩
    | interval mk low high =>
      obtain ⟨q, q', low, high, rfl, rfl, -, -⟩ := bounded.interval hb
      exact ⟨1, holdsInterval_eq_true.2 ⟨z, rfl, between_of_numeralRule (k := mk) h hz⟩⟩
    | _ => cases h
  | interval mk low high =>
    cases b with
    | interval mk' low' high' =>
      obtain ⟨p, q, low, high, rfl, rfl, hlow, -⟩ := bounded.interval ha
      obtain ⟨p', q', low', high', rfl, rfl, -, hhigh'⟩ := bounded.interval hb
      obtain ⟨z, rfl, hz⟩ := holdsInterval_eq_true.1 hin
      exact ⟨1, holdsInterval_eq_true.2 ⟨z, rfl, intervalRule_sound hlow hhigh' h hz⟩⟩
    | _ => cases h
  | unit =>
    cases b with
    | unit => exact ⟨1, hin⟩
    | _ => cases h
  | primitive mk name =>
    cases b with
    | primitive mk' name' =>
      obtain rfl : name = name' := by simpa [structureRule] using h
      exact ⟨1, hin⟩
    | _ => cases h
  | tuple mk items =>
    obtain ⟨vs, hvs, hall⟩ := hin
    cases b with
    | tuple mk' items' =>
      have hpairs : List.Forall₂ (fun x y => sub x y = .ok true) items items' :=
        allM_zip_eq_true.1 h
      exact inhabits_tuple hvs (forall₂_trans_mem hall hpairs fun w _ x hx y hy hwx hxy =>
        hsub x hx y hy hxy hwx)
    | list mk' members =>
      refine inhabits_list hvs fun w hw => ?_
      obtain ⟨x, hx, hwx⟩ := forall₂_exists_left hall.flip w hw
      obtain ⟨y, hy, hxy⟩ := exists_of_anyM_eq_true (allM_eq_true.1 h x hx)
      exact ⟨y, hy, hsub x hx y hy hxy hwx⟩
    | _ => cases h
  | list mk members =>
    obtain ⟨vs, hvs, hall⟩ := hin
    cases b with
    | list mk' members' =>
      refine inhabits_list hvs fun w hw => ?_
      obtain ⟨x, hx, hwx⟩ := hall w hw
      obtain ⟨y, hy, hxy⟩ := exists_of_anyM_eq_true (allM_eq_true.1 h x hx)
      exact ⟨y, hy, hsub x hx y hy hxy hwx⟩
    | _ => cases h
  | record mk fields =>
    obtain ⟨entries, hentries, hadmits, hall⟩ := hin
    cases b with
    | record mk' fields' =>
      obtain ⟨hadmits', hfields⟩ := recordRule_admits h hadmits
      refine inhabits_record hentries hadmits' fun f hf => ?_
      obtain ⟨x, hx, hxf⟩ := hfields f hf
      obtain ⟨g, hg, hname, rfl⟩ := Field.exists_of_find? hx
      obtain ⟨w, hw, hwg⟩ := hall g hg
      exact ⟨w, hname ▸ hw,
        hsub _ (List.mem_map_of_mem hg) _ (List.mem_map_of_mem hf) hxf hwg⟩
    | _ => cases h
  | tagged mk tags =>
    obtain ⟨tag, vs, g, hvs, hg, hall⟩ := hin
    cases b with
    | tagged mk' tags' =>
      have hmem := List.mem_of_find?_eq_some hg
      have hname : g.name = tag := by simpa using List.find?_some hg
      have hrule := allM_eq_true.1 h g hmem
      cases hg' : Tag.find? tags' g.name with
      | none => simp [hg'] at hrule
      | some g' =>
        simp only [hg'] at hrule
        have hpairs : List.Forall₂ (fun x y => sub x y = .ok true) g.fields g'.fields :=
          allM_zip_eq_true.1 hrule
        refine inhabits_tagged hvs (hname ▸ hg') ?_
        exact forall₂_trans_mem hall hpairs fun w _ x hx y hy hwx hxy =>
          hsub x (List.mem_flatMap.2 ⟨g, hmem, hx⟩) y
            (List.mem_flatMap.2 ⟨g', List.mem_of_find?_eq_some hg', hy⟩) hxy hwx
    | _ => cases h
  | typeVariable => cases h
  | named | predicate | union => cases h
  | function | delegation | complement | reference | deferred => cases bounded.positive ha

/-! ## Types that are taken apart -/

section Operators

variable {appeal : Appeal} {left right : Bounds} {q : Query Bool}

/-- A subject that is taken apart, so that fewer steps are left. -/
lemma subjectRule_belowIn (bounded : m.heap.Bounded K) (ha : K a) (hleft : Heap.Right K left)
    (hsub : ∀ {left' x}, K x → Heap.Right K left' → appeal.subtype left' right x b = .ok true →
      m.BelowIn K n x b)
    (hq : subjectRule? appeal left right a b = some q) (h : q = .ok true) :
    m.BelowIn K (n + 1) a b := by
  intro v hin
  subst h
  cases a with
  | union mk x y =>
    have hx : K x := bounded.part ha rfl (by simp [valueParts, parts])
    have hy : K y := bounded.part ha rfl (by simp [valueParts, parts])
    simp only [subjectRule?, Option.some.injEq, bind_ite_eq_ok] at hq
    obtain ⟨hsx, hsy⟩ | ⟨-, hsy⟩ := hq
    · rcases hin with hin | hin
      · exact hsub hx hleft hsx hin
      · exact hsub hy hleft hsy hin
    · cases hsy
  | predicate mk c body listed =>
    have hbody : K body := bounded.part ha rfl (by simp [valueParts, parts])
    exact hsub hbody (hleft.bind ha) (Option.some.inj hq) hin
  | typeVariable mk x =>
    simp only [subjectRule?, Option.map_eq_some_iff] at hq
    obtain ⟨c, hx, hq⟩ := hq
    have hc := hleft hx
    rcases hin with ⟨c', hc', hin⟩ | hnone
    · have hin := inhabitsIn_of_same bounded (bounded.constraint hc') (bounded.constraint hc)
        (bounded.agree hc' hc) hin
      exact hsub (bounded.constraint hc) (hleft.without x) hq hin
    · exact (hnone c hc).elim
  | complement => cases bounded.positive ha
  | _ => cases hq

/-- An object that is taken apart, so that it leads to another. -/
lemma objectRule_belowIn (bounded : m.heap.Bounded K) (ha : K a) (hb : K b)
    (covers : m.heap.Covers K right b) {depth : Nat}
    (hsub : ∀ {right' y}, m.heap.Descends K y b → K y → m.heap.Covers K right' y →
      appeal.subtype left right' a y = .ok true → m.BelowIn K n a y)
    (hq : m.objectRule? depth appeal left right a b = some q) (h : q = .ok true) :
    m.BelowIn K n a b := by
  intro v hin
  subst h
  cases b with
  | union mk x y =>
    have hx : x ∈ valueParts (.union mk x y) := by simp [valueParts, parts]
    have hy : y ∈ valueParts (.union mk x y) := by simp [valueParts, parts]
    simp only [objectRule?, Option.some.injEq, bind_ite_eq_ok] at hq
    obtain ⟨hsx, -⟩ | ⟨-, ⟨hsy, -⟩ | ⟨-, hcovers⟩⟩ := hq
    · exact inhabits_union (.inl (hsub (.inl (by simp [Heap.unguarded])) (bounded.part hb rfl hx)
        (covers.part rfl rfl hx) hsx hin))
    · exact inhabits_union (.inr (hsub (.inl (by simp [Heap.unguarded])) (bounded.part hb rfl hy)
        (covers.part rfl rfl hy) hsy hin))
    · cases a with
      | interval mk' low high =>
        obtain ⟨p, q, low, high, rfl, rfl, hlow, -⟩ := bounded.interval ha
        cases n with
        | zero => exact hin.elim
        | succ n =>
          obtain ⟨z, rfl, hz⟩ := holdsInterval_eq_true.1 hin
          by_contra hout
          refine Heap.not_out_of_covers (fun t => K t ∧ ¬ m.Inhabits K (.number z) t) ?_ ?_ ?_
            hlow hcovers hz ⟨hb, hout⟩
          · rintro mk name args ⟨ht, hout⟩
            exact ⟨bounded.unfold ht, fun h => hout (inhabits_named h)⟩
          · rintro mk left right ⟨ht, hout⟩
            exact ⟨⟨bounded.part ht rfl (by simp [valueParts, parts]),
                fun h => hout (inhabits_union (.inl h))⟩,
              ⟨bounded.part ht rfl (by simp [valueParts, parts]),
                fun h => hout (inhabits_union (.inr h))⟩⟩
          · rintro mk low high ⟨ht, hout⟩
            obtain ⟨p, q, x, y, rfl, rfl, hx, hy⟩ := bounded.interval ht
            refine ⟨x, y, ⟨⟨p, rfl⟩, ⟨q, rfl⟩, hx, hy⟩, fun between => hout ?_⟩
            exact ⟨1, holdsInterval_eq_true.2 ⟨z, rfl, between⟩⟩
      | _ => cases hcovers
  | predicate mk c body listed =>
    have hbody : K body := bounded.part hb rfl (by simp [valueParts, parts])
    exact inhabits_predicate (hsub (.inl (by simp [Heap.unguarded])) hbody (covers.bind bounded hb)
      (Option.some.inj hq) hin)
  | typeVariable mk x =>
    simp only [objectRule?] at hq
    cases hx : right.find? x with
    | some c =>
      simp only [hx, Option.some.injEq] at hq
      have hc := covers.right hx
      exact inhabits_bound hc (hsub (.inr ⟨mk, x, rfl, hc⟩) (bounded.constraint hc)
        (covers.without bounded hx) hq hin)
    | none =>
      -- what is not bound although the type needs it is bound by no predicate
      refine inhabits_free fun c hc => ?_
      obtain ⟨c', hc'⟩ := covers.bound (.free .occurs) hc
      simp [hx] at hc'
  | complement | delegation | function | reference | deferred => cases bounded.positive hb
  | _ =>
    cases a with
    | delegation => cases bounded.positive ha
    | _ => cases hq

end Operators

/-! ## The induction -/

/-- An assumed pair that may be relied on for so many steps, where an object is compared: it is
right for fewer steps, and for as many unless its object leads to the one that is compared. -/
def Relied (m : Matcher) (K : TypeExpr → Prop) (n : Nat) (b : TypeExpr) (p : TypeExpr × TypeExpr) :
    Prop :=
  (∀ k < n, m.BelowIn K k p.1 p.2) ∧
    (m.BelowIn K n p.1 p.2 ∨ Relation.TransGen (m.heap.Descends K) b p.2)

lemma Relied.descends {y : TypeExpr} (h : m.Relied K n b p) (hy : m.heap.Descends K y b) :
    m.Relied K n y p :=
  ⟨h.1, h.2.imp_right fun hb => .head hy hb⟩

lemma Relied.fewer {y : TypeExpr} (h : m.Relied K n b p) (hlt : n' < n) : m.Relied K n' y p :=
  ⟨fun k hk => h.1 k (hk.trans hlt), .inl (h.1 n' hlt)⟩

/-- Whatever is found to be a subtype, under assumed pairs that may be relied on, holds no value
that the supertype does not hold. -/
def SubtypeBelow (m : Matcher) (K : TypeExpr → Prop) (depth : Nat) : Prop :=
  ∀ ⦃assumed : Assumed⦄ ⦃left right : Bounds⦄ ⦃a b : TypeExpr⦄, K a → K b → Heap.Right K left →
    m.heap.Covers K right b → m.subtype depth assumed left right a b = .ok true →
      ∀ ⦃n : Nat⦄, (∀ p ∈ assumed, m.Relied K n b p) → m.BelowIn K n a b

lemma subtypeBelow_succ (bounded : m.heap.Bounded K) {depth : Nat}
    (hsub : m.SubtypeBelow K depth) : m.SubtypeBelow K (depth + 1) := by
  intro assumed left right a b ha hb hleft covers h n
  -- by the number of steps, for the pair that is about to be assumed
  induction n using Nat.strong_induction_on with
  | _ n bySteps =>
    intro relied v hin
    unfold subtype at h
    split at h
    · rename_i href
      split at h
      · rename_i hmem
        refine (relied _ hmem).2.elim (fun below => below hin) fun loop => ?_
        exact (bounded.not_descends_self hb loop).elim
      · rw [bounded.reveal ha, bounded.reveal hb] at h
        have fewer (k : Nat) (hk : k < n) : m.BelowIn K k a b :=
          bySteps k hk fun p hp => (relied p hp).fewer hk
        have unfolded : m.Inhabits K v (m.heap.unfold b) := by
          by_cases hrefa : a.isReferring = true
          · -- the subject is unfolded, so that a step less is left
            obtain ⟨mk, name, args, rfl⟩ := bounded.toFirm.referring ha hrefa
            cases n with
            | zero => exact hin.elim
            | succ n =>
              refine hsub (bounded.unfold ha) (bounded.unfold hb) hleft (covers.unfold bounded hb) h
                ?_ hin
              refine List.forall_mem_cons.2 ⟨?_, fun p hp => (relied p hp).fewer n.lt_succ_self⟩
              exact ⟨fun k hk => fewer k (hk.trans n.lt_succ_self), .inl (fewer n n.lt_succ_self)⟩
          · have hrefb : b.isReferring = true := by simpa [hrefa] using href
            have descends := bounded.descends_unfold hb hrefb
            rw [Heap.unfold_of_not_referring (by simpa using hrefa)] at h
            refine hsub ha (bounded.unfold hb) hleft (covers.unfold bounded hb) h ?_ hin
            refine List.forall_mem_cons.2 ⟨⟨fewer, .inr descends⟩, fun p hp => ?_⟩
            exact ⟨(relied p hp).1, (relied p hp).2.imp_right descends.trans⟩
        by_cases hrefb : b.isReferring = true
        · obtain ⟨mk, name, args, rfl⟩ := bounded.toFirm.referring hb hrefb
          exact inhabits_named unfolded
        · rw [Heap.unfold_of_not_referring (by simpa using hrefb)] at unfolded
          exact unfolded
    · rename_i href
      rw [Bool.or_eq_true, not_or, Bool.not_eq_true, Bool.not_eq_true] at href
      split at h
      · rename_i hsame
        rcases Bool.or_eq_true_iff.1 hsame with hsame | hany
        · exact (inhabitsIn_of_same bounded ha hb hsame hin).inhabits
        · cases b with
          | primitive mk name => exact ⟨1, .inr (by simpa [isAny] using hany)⟩
          | _ => cases hany
      · dsimp only at h
        cases n with
        | zero => exact hin.elim
        | succ n =>
          split at h
          · refine subjectRule_belowIn bounded ha hleft (fun hx hleft' hxb => ?_) ‹_› h hin
            exact hsub hx hb hleft' covers hxb fun p hp => (relied p hp).fewer n.lt_succ_self
          · split at h
            · refine objectRule_belowIn bounded ha hb covers (fun hy hK covers' hay => ?_) ‹_› h hin
              exact hsub ha hK hleft covers' hay fun p hp => (relied p hp).descends hy
            · rename_i hobject
              have plain : b.isPredicate = false := by
                cases b <;> first | rfl | cases hobject
              refine structureRule_belowIn bounded ha hb (fun x hx y hy hxy => ?_) h hin
              exact hsub (bounded.part ha href.1 hx) (bounded.part hb href.2 hy) hleft
                (covers.part href.2 plain hy) hxy fun p hp => (relied p hp).fewer n.lt_succ_self

/-- At every depth, what is found to be a subtype holds no more values. -/
lemma subtypeBelow (bounded : m.heap.Bounded K) (depth : Nat) : m.SubtypeBelow K depth := by
  induction depth with
  | zero =>
    intro assumed left right a b _ _ _ _ h
    cases h
  | succ depth ih => exact subtypeBelow_succ bounded ih

end Matcher

end TypeNotation
