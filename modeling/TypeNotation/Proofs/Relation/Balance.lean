import TypeNotation.Proofs.Number.Comparison
import TypeNotation.Proofs.Relation.Kept
import TypeNotation.Proofs.Relation.Soundness

/-!
# What a test for overlap compares

A test for overlap takes the two types apart, whichever comes first, until two structures stand
against each other, and then compares their parts.  The pairs of types that it may come to in this
way are the same for both orders.  Two types are *balanced* if in none of these pairs a complement
stands against a type that there is a rule for as well, and all names are different.

An answer about two structures says whether they *fit*, given which of their parts do.  Whether they
fit does not depend on the order.
-/

namespace TypeNotation

open TypeExpr Query

namespace TypeExpr

/-- Whether a test for overlap has a rule for a type whatever stands against it. -/
def hasRule : TypeExpr → Bool
  | union .. | complement .. | predicate .. | delegation .. | typeVariable .. => true
  | t => t.isAny

/-- Whether a type is compared by its structure. -/
def isStructure (t : TypeExpr) : Bool :=
  !t.hasRule && !t.isReferring

/-- Whether the fields or constructors of a type have different names. -/
def Distinct : TypeExpr → Prop
  | record _ fields => (Field.names fields).Nodup
  | tagged _ tags => (tags.map (·.name)).Nodup
  | _ => True

/-- Where two structures are compared, what stands inside the one against what inside the other. -/
inductive Inside : TypeExpr → TypeExpr → TypeExpr → TypeExpr → Prop
  | tuples {m m' : Mark} {xs ys : List TypeExpr} {x y : TypeExpr} :
    (x, y) ∈ xs.zip ys → Inside (.tuple m xs) (.tuple m' ys) x y
  | tupleList {m m' : Mark} {xs ys : List TypeExpr} {x y : TypeExpr} :
    x ∈ xs → y ∈ ys → Inside (.tuple m xs) (.list m' ys) x y
  | listTuple {m m' : Mark} {xs ys : List TypeExpr} {x y : TypeExpr} :
    x ∈ xs → y ∈ ys → Inside (.list m xs) (.tuple m' ys) x y
  | records {m m' : Mark} {fs gs : List (Field TypeExpr)} {f g : Field TypeExpr} :
    f ∈ fs → g ∈ gs → f.name = g.name → Inside (.record m fs) (.record m' gs) f.type g.type
  | tagged {m m' : Mark} {fs gs : List (Tag TypeExpr)} {f g : Tag TypeExpr} {x y : TypeExpr} :
    f ∈ fs → g ∈ gs → f.name = g.name → (x, y) ∈ f.fields.zip g.fields →
    Inside (.tagged m fs) (.tagged m' gs) x y

lemma Inside.symm {a b x y : TypeExpr} (h : Inside a b x y) : Inside b a y x := by
  have turn {xs ys : List TypeExpr} (hmem : (x, y) ∈ xs.zip ys) : (y, x) ∈ ys.zip xs := by
    rw [← List.zip_swap]
    exact List.mem_map_of_mem hmem
  cases h with
  | tuples hmem => exact .tuples (turn hmem)
  | tupleList hx hy => exact .listTuple hy hx
  | listTuple hx hy => exact .tupleList hy hx
  | records hf hg name => exact .records hg hf name.symm
  | tagged hf hg name hmem => exact .tagged hg hf name.symm (turn hmem)

end TypeExpr

/-! ## Balanced types -/

namespace Heap

/-- What a type is taken apart into, or stands for. -/
inductive Exposes (h : Heap) : TypeExpr → TypeExpr → Prop
  | left {m : Mark} {l r : TypeExpr} : h.Exposes (.union m l r) l
  | right {m : Mark} {l r : TypeExpr} : h.Exposes (.union m l r) r
  | minuend {m : Mark} {l r : TypeExpr} : h.Exposes (.complement m l r) l
  | body {m : Mark} {constraint body : TypeExpr} {listed : List Binder} :
    h.Exposes (.predicate m constraint body listed) body
  | base {m : Mark} {base : TypeExpr} {targets : List TypeExpr} :
    h.Exposes (.delegation m base targets) base
  | revealed {t u : TypeExpr} : t.isReferring = true → h.reveal t = .ok u → h.Exposes t u

/-- The pairs of types that a test for overlap may come to. -/
inductive Meets (h : Heap) (a b : TypeExpr) : TypeExpr → TypeExpr → Prop
  | start : h.Meets a b a b
  | first {x x' y : TypeExpr} : h.Meets a b x y → h.Exposes x x' → h.Meets a b x' y
  | second {x y y' : TypeExpr} : h.Meets a b x y → h.Exposes y y' → h.Meets a b x y'
  | inside {x y u v : TypeExpr} : h.Meets a b x y → Inside x y u v → h.Meets a b u v

/-- Two types that may stand against each other in a test for overlap: if one is a complement, then
there is no rule for the other. -/
structure Even (x y : TypeExpr) : Prop where
  first : x.isComplement = true → y.hasRule = false
  second : y.isComplement = true → x.hasRule = false
  distinct : x.Distinct ∧ y.Distinct

/-- All pairs of types that a test for overlap may come to are even. -/
def Balanced (h : Heap) (a b : TypeExpr) : Prop :=
  ∀ x y, h.Meets a b x y → Even x y

variable {h : Heap} {a b x y : TypeExpr}

lemma Meets.symm (meets : h.Meets a b x y) : h.Meets b a y x := by
  induction meets with
  | start => exact .start
  | first _ exposes ih => exact .second ih exposes
  | second _ exposes ih => exact .first ih exposes
  | inside _ inside ih => exact .inside ih inside.symm

lemma Meets.trans {u v : TypeExpr} (meets : h.Meets a b x y) (later : h.Meets x y u v) :
    h.Meets a b u v := by
  induction later with
  | start => exact meets
  | first _ exposes ih => exact .first ih exposes
  | second _ exposes ih => exact .second ih exposes
  | inside _ inside ih => exact .inside ih inside

lemma Even.symm (even : Even x y) : Even y x :=
  ⟨even.second, even.first, even.distinct.symm⟩

namespace Balanced

lemma symm (balanced : h.Balanced a b) : h.Balanced b a :=
  fun x y meets => (balanced y x meets.symm).symm

lemma even (balanced : h.Balanced a b) : Even a b :=
  balanced a b .start

lemma later (balanced : h.Balanced a b) (meets : h.Meets a b x y) : h.Balanced x y :=
  fun u v later => balanced u v (meets.trans later)

lemma first (balanced : h.Balanced a b) (exposes : h.Exposes a x) : h.Balanced x b :=
  balanced.later (.first .start exposes)

lemma second (balanced : h.Balanced a b) (exposes : h.Exposes b y) : h.Balanced a y :=
  balanced.later (.second .start exposes)

lemma inside (balanced : h.Balanced a b) (inside : Inside a b x y) : h.Balanced x y :=
  balanced.later (.inside .start inside)

end Balanced

end Heap

/-! ## Structures that fit -/

/-- What has a name of its own is found by it. -/
lemma find?_of_nodup_names {α : Type} {name : α → String} {xs : List α}
    (nodup : (xs.map name).Nodup) {x : α} (hx : x ∈ xs) :
    xs.find? (fun y => name y = name x) = some x := by
  induction xs with
  | nil => cases hx
  | cons y xs ih =>
    rw [List.map_cons, List.nodup_cons] at nodup
    rcases List.mem_cons.1 hx with rfl | hx
    · rw [List.find?_cons_of_pos (by simp)]
    · have other : name y ≠ name x := fun same => nodup.1 (same ▸ List.mem_map_of_mem hx)
      rw [List.find?_cons_of_neg (by simpa using other)]
      exact ih nodup.2 hx

lemma Field.find?_of_nodup {α : Type} {fields : List (Field α)} (nodup : (names fields).Nodup)
    {f : Field α} (hf : f ∈ fields) : find? fields f.name = some f.type := by
  rw [find?, find?_of_nodup_names nodup hf]
  rfl

lemma Tag.mem_of_find? {α : Type} {tags : List (Tag α)} {name : String} {g : Tag α}
    (h : find? tags name = some g) : g ∈ tags ∧ g.name = name :=
  ⟨List.mem_of_find?_eq_some h, by simpa using List.find?_some h⟩

lemma Field.sameNames_comm {α β : Type} {fs : List (Field α)} {gs : List (Field β)} :
    sameNames fs gs = sameNames gs fs :=
  Bool.and_comm _ _

namespace Matcher

/-- What the rules appeal to at a depth, without assumptions. -/
def appealAt (m : Matcher) (depth : Nat) : Appeal :=
  ⟨m.subtype depth [], m.overlap depth []⟩

lemma keptAppeal_appealAt (m : Matcher) {depth depth' : Nat} (le : depth ≤ depth') :
    KeptAppeal (m.appealAt depth) (m.appealAt depth') :=
  ⟨(m.kept_relations le).1 [], (m.kept_relations le).2 []⟩

/-- Two structures fit if so do those of their parts on which it depends. -/
inductive Fits (m : Matcher) (P : TypeExpr → TypeExpr → Prop) : TypeExpr → TypeExpr → Prop
  | numbers {a b : TypeExpr} {depth : Nat} : isNumeric a = true → isNumeric b = true →
    numericOverlap (m.appealAt depth) a b = .ok true → m.Fits P a b
  | tuples {mk mk' : Mark} {xs ys : List TypeExpr} : List.Forall₂ P xs ys →
    m.Fits P (.tuple mk xs) (.tuple mk' ys)
  | tupleList {mk mk' : Mark} {xs ys : List TypeExpr} : (∀ x ∈ xs, ∃ y ∈ ys, P x y) →
    m.Fits P (.tuple mk xs) (.list mk' ys)
  | listTuple {mk mk' : Mark} {xs ys : List TypeExpr} : (∀ y ∈ ys, ∃ x ∈ xs, P x y) →
    m.Fits P (.list mk xs) (.tuple mk' ys)
  | lists {mk mk' : Mark} {xs ys : List TypeExpr} : m.Fits P (.list mk xs) (.list mk' ys)
  | records {mk mk' : Mark} {fs gs : List (Field TypeExpr)} :
    (!m.openRecords && !Field.sameNames fs gs) = false →
    (∀ f ∈ fs, ∀ g ∈ gs, f.name = g.name → P f.type g.type) →
    m.Fits P (.record mk fs) (.record mk' gs)
  | tagged {mk mk' : Mark} {fs gs : List (Tag TypeExpr)} {f g : Tag TypeExpr} :
    f ∈ fs → g ∈ gs → f.name = g.name → List.Forall₂ P f.fields g.fields →
    m.Fits P (.tagged mk fs) (.tagged mk' gs)
  | functions {mk mk' : Mark} {inputs inputs' : List (Parameter TypeExpr)}
    {outputs outputs' : List TypeExpr} :
    m.Fits P (.function mk inputs outputs) (.function mk' inputs' outputs')
  | units {mk mk' : Mark} : m.Fits P (.unit mk) (.unit mk')
  | primitives {mk mk' : Mark} {name : String} :
    m.Fits P (.primitive mk name) (.primitive mk' name)

variable {m : Matcher} {P Q : TypeExpr → TypeExpr → Prop} {a b : TypeExpr} {depth depth' : Nat}

/-! ### Numbers -/

/-- Two numbers are below each other, or neither is below the other. -/
lemma subtype_number_comm {x y : Numeral}
    (h : m.subtype depth [] [] [] (.number x) (.number y) = .ok true) :
    m.subtype depth [] [] [] (.number y) (.number x) = .ok true := by
  cases depth with
  | zero => cases h
  | succ depth =>
    have numeral {x y : Numeral} : m.subtype (depth + 1) [] [] [] (.number x) (.number y) =
        if (TypeExpr.number x).same (.number y) then .ok true
        else numeralRule x (.number y) := by
      simp [subtype, isReferring, isAny, subjectRule?, objectRule?, structureRule]
    rw [numeral] at h ⊢
    split at h
    · rw [if_pos (same_symm ‹_›)]
    · split
      · rfl
      · simp only [numeralRule] at h ⊢
        rw [Bool.or_comm, Bool.and_comm]
        split at h
        · rw [if_pos ‹_›]
          exact h
        · rw [if_neg ‹_›]
          cases hxy : x.compare y with
          | error fault => simp [hxy, bind, Except.bind, ofArithmetic] at h
          | ok o =>
            rw [Numeral.compare_swap hxy]
            simp only [hxy, bind, Except.bind, ofArithmetic, pure, Except.pure] at h ⊢
            cases o <;> simp_all

lemma overlapStructure_of_isNumeric {appeal : Appeal} {rec : TypeExpr → TypeExpr → Query Bool}
    (ha : isNumeric a = true) (hb : isNumeric b = true) :
    m.overlapStructure appeal rec a b = numericOverlap appeal a b := by
  cases a with
  | number | interval => simp only [overlapStructure, hb, if_true]
  | _ => cases ha

lemma numericOverlap_comm (ha : isNumeric a = true) (hb : isNumeric b = true)
    (h : numericOverlap (m.appealAt depth) a b = .ok true) :
    numericOverlap (m.appealAt depth) b a = .ok true := by
  cases a with
  | number x =>
    cases b with
    | number y => exact subtype_number_comm h
    | interval => exact h
    | _ => cases hb
  | interval mk low high =>
    cases b with
    | number y => exact h
    | interval mk' low' high' =>
      simp only [numericOverlap] at h ⊢
      cases forth : low.compare high' with
      | error fault => simp [forth, bind, Except.bind, ofArithmetic] at h
      | ok o =>
        cases back : low'.compare high with
        | error fault =>
          simp only [forth, back, bind, Except.bind, pure, Except.pure] at h
          cases o <;> cases h
        | ok o' =>
          simp only [forth, back, bind, Except.bind, ofArithmetic, pure, Except.pure] at h ⊢
          cases o <;> cases o' <;> simp_all
    | _ => cases hb
  | _ => cases ha

lemma numericOverlap_unique {x y : Bool}
    (h : numericOverlap (m.appealAt depth) a b = .ok x)
    (h' : numericOverlap (m.appealAt depth') a b = .ok y) : x = y := by
  have later := kept_numericOverlap (m.keptAppeal_appealAt (Nat.le_max_left depth depth')) a b x h
  rw [kept_numericOverlap (m.keptAppeal_appealAt (Nat.le_max_right depth depth')) a b y h'] at later
  exact (Except.ok.inj later).symm

/-! ### Order and parts -/

lemma Fits.symm (fits : m.Fits P a b) : m.Fits (fun x y => P y x) b a := by
  cases fits with
  | numbers ha hb h => exact .numbers hb ha (numericOverlap_comm ha hb h)
  | tuples all => exact .tuples all.flip
  | tupleList some => exact .listTuple some
  | listTuple some => exact .tupleList some
  | lists => exact .lists
  | records admitted all =>
    exact .records (Field.sameNames_comm ▸ admitted) fun g hg f hf name => all f hf g hg name.symm
  | tagged hf hg name all => exact .tagged hg hf name.symm all.flip
  | functions => exact .functions
  | units => exact .units
  | primitives => exact .primitives

lemma Fits.mono (fits : m.Fits P a b) (h : ∀ x y, Inside a b x y → P x y → Q x y) :
    m.Fits Q a b := by
  have zip {xs ys : List TypeExpr} (all : List.Forall₂ P xs ys)
      (inside : ∀ x y, (x, y) ∈ xs.zip ys → Inside a b x y) : List.Forall₂ Q xs ys := by
    rw [List.forall₂_iff_zip] at all ⊢
    exact ⟨all.1, fun hmem => h _ _ (inside _ _ hmem) (all.2 hmem)⟩
  cases fits with
  | numbers ha hb h => exact .numbers ha hb h
  | tuples all => exact .tuples (zip all fun _ _ => .tuples)
  | tupleList some =>
    refine .tupleList fun x hx => ?_
    obtain ⟨y, hy, hxy⟩ := some x hx
    exact ⟨y, hy, h x y (.tupleList hx hy) hxy⟩
  | listTuple some =>
    refine .listTuple fun y hy => ?_
    obtain ⟨x, hx, hxy⟩ := some y hy
    exact ⟨x, hx, h x y (.listTuple hx hy) hxy⟩
  | lists => exact .lists
  | records admitted all =>
    exact .records admitted fun f hf g hg name =>
      h _ _ (.records hf hg name) (all f hf g hg name)
  | tagged hf hg name all => exact .tagged hf hg name (zip all fun _ _ => .tagged hf hg name)
  | functions => exact .functions
  | units => exact .units
  | primitives => exact .primitives

/-! ### Answers -/

section Answers

variable {rec : TypeExpr → TypeExpr → Query Bool} (distinct : b.Distinct)
include distinct

/-- Structures that are found to overlap fit. -/
lemma fits_of_overlapStructure
    (h : m.overlapStructure (m.appealAt depth) rec a b = .ok true) :
    m.Fits (fun x y => rec x y = .ok true ∨ rec y x = .ok true) a b := by
  have pairs {xs ys : List TypeExpr} (h : pairwise rec xs ys = .ok true) :
      List.Forall₂ (fun x y => rec x y = .ok true ∨ rec y x = .ok true) xs ys :=
    (allM_zip_eq_true.1 h).imp fun _ _ => .inl
  have some {xs ys : List TypeExpr} (h : eachToSome rec xs ys = .ok true) :
      ∀ x ∈ xs, ∃ y ∈ ys, rec x y = .ok true :=
    fun x hx => exists_of_anyM_eq_true (allM_eq_true.1 h x hx)
  cases a with
  | number | interval =>
    simp only [overlapStructure] at h
    split at h
    · exact .numbers rfl ‹_› h
    · cases h
  | tuple mk xs =>
    cases b with
    | tuple => exact .tuples (pairs h)
    | list => exact .tupleList fun x hx => (some h x hx).imp fun _ => .imp_right .inl
    | _ => cases h
  | list mk xs =>
    cases b with
    | tuple => exact .listTuple fun y hy => (some h y hy).imp fun _ => .imp_right .inr
    | list => exact .lists
    | _ => cases h
  | record mk fs =>
    cases b with
    | record mk' gs =>
      simp only [overlapStructure] at h
      split at h
      · cases h
      · refine .records (Bool.eq_false_iff.2 ‹_›) fun f hf g hg name => .inl ?_
        have found := allM_eq_true.1 h f hf
        rwa [name, Field.find?_of_nodup distinct hg] at found
    | _ => cases h
  | tagged mk fs =>
    cases b with
    | tagged mk' gs =>
      obtain ⟨f, hf, h⟩ := exists_of_anyM_eq_true h
      split at h
      · obtain ⟨hg, name⟩ := Tag.mem_of_find? ‹_›
        exact .tagged hf hg name.symm (pairs h)
      · cases h
    | _ => cases h
  | function =>
    cases b with
    | function => exact .functions
    | _ => cases h
  | unit =>
    cases b with
    | unit => exact .units
    | _ => cases h
  | primitive mk name =>
    cases b with
    | primitive mk' name' =>
      obtain rfl : name = name' := by simpa [overlapStructure] using h
      exact .primitives
    | _ => cases h
  | _ => cases h

/-- Structures that are found not to overlap do not fit. -/
lemma not_fits_of_overlapStructure
    (h : m.overlapStructure (m.appealAt depth) rec a b = .ok false) :
    ¬ m.Fits (fun x y => rec x y ≠ .ok false ∧ rec y x ≠ .ok false) a b := by
  have pairs {xs ys : List TypeExpr} (h : pairwise rec xs ys = .ok false) :
      ¬ List.Forall₂ (fun x y => rec x y ≠ .ok false ∧ rec y x ≠ .ok false) xs ys :=
    fun all => not_forall₂_of_allM_zip_eq_false h (all.imp fun _ _ => And.left)
  have some {xs ys : List TypeExpr} (h : eachToSome rec xs ys = .ok false) :
      ∃ x ∈ xs, ∀ y ∈ ys, rec x y = .ok false :=
    (exists_of_allM_eq_false h).imp fun _ => .imp_right anyM_eq_false.1
  intro fits
  cases fits with
  | numbers ha hb yes =>
    rw [overlapStructure_of_isNumeric ha hb] at h
    exact absurd (numericOverlap_unique yes h) (by simp)
  | tuples all => exact pairs h all
  | tupleList all =>
    obtain ⟨x, hx, none⟩ := some h
    obtain ⟨y, hy, hxy⟩ := all x hx
    exact hxy.1 (none y hy)
  | listTuple all =>
    obtain ⟨y, hy, none⟩ := some h
    obtain ⟨x, hx, hxy⟩ := all y hy
    exact hxy.2 (none x hx)
  | records admitted all =>
    simp only [overlapStructure, admitted, Bool.false_eq_true, if_false] at h
    obtain ⟨f, hf, no⟩ := exists_of_allM_eq_false h
    split at no
    · obtain ⟨g, hg, name, rfl⟩ := Field.exists_of_find? ‹_›
      exact (all f hf g hg name.symm).1 no
    · cases no
  | @tagged _ _ fs gs f g hf hg name all =>
    have no := anyM_eq_false.1 h f hf
    rw [name, Tag.find?, find?_of_nodup_names distinct hg] at no
    exact pairs no all
  | lists | functions | units => cases h
  | primitives => simp [overlapStructure] at h

end Answers

end Matcher

end TypeNotation
