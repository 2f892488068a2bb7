import Mathlib
import TypeNotation.Proofs.Graph.RdfList
import TypeNotation.Proofs.Graph.Taxonomy
import TypeNotation.Proofs.Parser.WellFormed

/-!
# A vocabulary describes each thing once

The resources of a vocabulary are named after declarations and after their constructors; the name of
a constructor's resource is put together of two names with a dot between them.  No name that is read
has a dot in it, so such a resource is told apart from those of declarations, and from those of
other constructors of the same or another declaration.  A registry has one declaration of a name,
and a declaration has one constructor of a name.  Hence whatever is said about a resource is said on
account of the one declaration or the one constructor that it stands for.

The *leading* predicates are those that say what a resource is, what it is called and how many
arguments it takes.  Lists, notation texts, the parts of a delegation and the taxonomy are written
with other predicates, and so they add nothing to what is led by these.
-/

namespace TypeNotation

/-! ## Graphs that grow -/

namespace Graph

variable {g : Graph} {t : Triple} {ts : List Triple} {items : List Node}

lemma mem_addAll : t ∈ (g.addAll ts).triples ↔ t ∈ g.triples ∨ t ∈ ts := by
  induction ts generalizing g with
  | nil => simp [addAll]
  | cons u ts ih =>
    change t ∈ ((g.add u).addAll ts).triples ↔ _
    rw [ih, mem_add, List.mem_cons, or_assoc]

/-- Writing a list adds cells only. -/
lemma mem_addList (first : t.predicate ≠ Rdf.first) (rest : t.predicate ≠ Rdf.rest) :
    t ∈ (g.addList items).2.triples ↔ t ∈ g.triples := by
  induction items with
  | nil => exact Iff.rfl
  | cons item items ih =>
    have other {s : Node} {p : String} {o : Node} (hp : t.predicate ≠ p) : t ≠ ⟨s, p, o⟩ := by
      rintro rfl
      exact hp rfl
    change t ∈ ((g.addList items).2.cons item (g.addList items).1).2.triples ↔ _
    rw [cons, mem_add, mem_add, or_iff_left (other rest), or_iff_left (other first)]
    exact ih

lemma nodup_add (h : g.triples.Nodup) : (g.add t).triples.Nodup := by
  unfold add
  split
  · exact h
  · rename_i new
    exact h.append (List.nodup_singleton t) (by simpa using new)

lemma nodup_addAll (h : g.triples.Nodup) : (g.addAll ts).triples.Nodup := by
  induction ts generalizing g with
  | nil => exact h
  | cons u ts ih => exact ih (nodup_add h)

lemma nodup_addList (h : g.triples.Nodup) : (g.addList items).2.triples.Nodup := by
  induction items with
  | nil => exact h
  | cons item items ih => exact nodup_add (nodup_add ih)

/-- A subject has one object of a predicate if one is all that is said. -/
lemma objects_eq_singleton (nodup : g.triples.Nodup) {subject object : Node} {predicate : String}
    (said : ∀ o, ⟨subject, predicate, o⟩ ∈ g.triples ↔ o = object) :
    g.objects subject predicate = [object] := by
  have distinct : (g.objects subject predicate).Nodup := by
    refine (nodup.filter _).map_on fun t ht u hu same => ?_
    obtain ⟨hts, htp⟩ := of_decide_eq_true (List.mem_filter.1 ht).2
    obtain ⟨hus, hup⟩ := of_decide_eq_true (List.mem_filter.1 hu).2
    cases t
    cases u
    simp_all
  have all (o : Node) : o ∈ g.objects subject predicate ↔ o = object := mem_objects.trans (said o)
  exact List.perm_singleton.1 ((List.perm_ext_iff_of_nodup distinct (List.nodup_singleton _)).2
    fun o => (all o).trans List.mem_singleton.symm)

end Graph

/-! ## Registries of what was read -/

/-- A declaration that some source text has. -/
def Declaration.Read (d : Declaration) : Prop :=
  ∃ text ds, parse text = .ok ds ∧ d ∈ ds

/-- The constructors of a declaration. -/
def Declaration.tags (d : Declaration) : List (Tag TypeExpr) :=
  match d.body with
  | .tagged _ tags => tags
  | _ => []

lemma Declaration.Read.undotted {d : Declaration} (h : d.Read) : Undotted d.name := by
  obtain ⟨text, ds, hparse, hd⟩ := h
  exact undotted_of_parse hparse d hd

lemma Declaration.Read.tags_nodup {d : Declaration} (h : d.Read) :
    (d.tags.map (·.name)).Nodup := by
  obtain ⟨text, ds, hparse, hd⟩ := h
  unfold tags
  split
  · rename_i m tags hbody
    exact tags_nodup_of_parse hparse hd hbody
  · exact List.nodup_nil

namespace Registry

variable {r r' : Registry} {d : Declaration} {ds : List Declaration}

/-- The registries whose declarations were read from source texts: they start with the opaque
domains, with or without the prelude, and what is declared or loaded was read. -/
inductive Parsed : Registry → Prop
  | start {r : Registry} (h : r ∈ [empty, withPrelude]) : Parsed r
  | declare {r r' : Registry} {d : Declaration} (h : Parsed r) (read : d.Read)
    (done : r.declare d = .ok r') : Parsed r'
  | load {r r' : Registry} {ds : List Declaration} (h : Parsed r) (read : ∀ d ∈ ds, d.Read)
    (done : r.load ds = .ok r') : Parsed r'
  | memoize {r : Registry} (h : Parsed r) (expansions : List TypeExpr) :
    Parsed (r.memoize expansions)

/-- A registry with one declaration of a name, and no declarations but opaque domains and what was
read. -/
structure Orderly (r : Registry) : Prop where
  names : (r.declarations.map (·.name)).Nodup
  read : ∀ d ∈ r.declarations, isBuiltin d.name = false → d.Read

lemma orderly_empty : empty.Orderly where
  names := by simp [empty, builtins]
  read d hd opaque_ := by
    have builtin : isBuiltin d.name = true := List.any_eq_true.2 ⟨d, hd, decide_eq_true rfl⟩
    exact absurd builtin (Bool.eq_false_iff.1 opaque_)

lemma names_assign (ds : List Declaration) (d : Declaration) :
    (assign ds d).map (·.name) =
      if d.name ∈ ds.map (·.name) then ds.map (·.name) else ds.map (·.name) ++ [d.name] := by
  induction ds with
  | nil => rfl
  | cons e ds ih =>
    unfold assign
    by_cases taken : e.name = d.name
    · simp [taken]
    · rw [if_neg taken, List.map_cons, ih]
      simp only [List.map_cons, List.mem_cons, Ne.symm taken, false_or]
      split <;> rfl

/-- Adding a declaration that was read. -/
lemma Orderly.insert (h : r.Orderly) (read : d.Read) : (r.insert d).Orderly := by
  unfold Registry.insert
  split
  · exact h
  · constructor
    · rw [names_assign]
      split
      · exact h.names
      · rename_i new
        exact h.names.append (List.nodup_singleton _) (by simpa using new)
    · intro e he other
      rcases mem_assign he with he | rfl
      · exact h.read e he other
      · exact read

lemma Orderly.foldl_insert (h : r.Orderly) (read : ∀ d ∈ ds, d.Read) :
    (ds.foldl Registry.insert r).Orderly := by
  induction ds generalizing r with
  | nil => exact h
  | cons d ds ih =>
    rw [List.forall_mem_cons] at read
    exact ih (h.insert read.1) read.2

lemma orderly_withPrelude : withPrelude.Orderly := by
  unfold withPrelude
  split
  · rename_i ds hparse
    exact orderly_empty.foldl_insert fun d hd => ⟨preludeText, ds, hparse, hd⟩
  · exact orderly_empty

lemma orderly_initial (h : r ∈ [empty, withPrelude]) : r.Orderly := by
  rcases List.mem_cons.1 h with h | h
  · rw [h]
    exact orderly_empty
  · rw [List.mem_singleton.1 h]
    exact orderly_withPrelude

lemma Parsed.orderly (h : r.Parsed) : r.Orderly := by
  induction h with
  | start h => exact orderly_initial h
  | declare _ read done ih =>
    obtain ⟨-, rfl⟩ := declare_eq_ok.1 done
    exact ih.insert read
  | load _ read done ih =>
    obtain ⟨_, -, done⟩ := bind_eq_ok.1 done
    cases done
    exact ih.foldl_insert read
  | memoize _ _ ih => exact ⟨ih.names, ih.read⟩

end Registry

namespace Vocabulary

variable {options : VocabularyOptions} {registry : Registry} {g : Graph} {t : Triple}
  {d e : Declaration} {tag tag' : Tag TypeExpr}

/-! ## Names of resources -/

/-- The resource of a declaration. -/
def typeNode (options : VocabularyOptions) (d : Declaration) : Node :=
  resource options d.name

/-- The resource of a constructor. -/
def tagNode (options : VocabularyOptions) (d : Declaration) (tag : Tag TypeExpr) : Node :=
  resource options (d.name ++ "." ++ tag.name)

lemma resource_injective {a b : String} (h : resource options a = resource options b) : a = b := by
  simpa [resource] using h

/-- Names that are put together of two are the same only if both parts are. -/
lemma eq_of_dotted {a b x y : String} (ha : Undotted a) (hb : Undotted b)
    (h : a ++ "." ++ x = b ++ "." ++ y) : a = b ∧ x = y := by
  have chars : a.toList ++ '.' :: x.toList = b.toList ++ '.' :: y.toList := by
    simpa [String.toList_append] using congrArg String.toList h
  -- the first part is what comes before the first dot
  have front {cs ds : List Char} (hcs : '.' ∉ cs) :
      (cs ++ '.' :: ds).takeWhile (· ≠ '.') = cs := by
    rw [takeWhile_append_cons (by decide), List.takeWhile_eq_self_iff]
    rintro c hc
    exact decide_eq_true (ne_of_mem_of_not_mem hc hcs)
  have first : a.toList = b.toList := by
    rw [← front ha, chars, front hb]
  rw [first] at chars
  have second : x.toList = y.toList := (List.cons.inj (List.append_cancel_left chars)).2
  exact ⟨String.toList_injective first, String.toList_injective second⟩

/-- Declarations that are told apart by their names, and their constructors too. -/
structure Distinct (ds : List Declaration) : Prop where
  undotted : ∀ d ∈ ds, Undotted d.name
  names : ∀ d ∈ ds, ∀ e ∈ ds, d.name = e.name → d = e
  tags : ∀ d ∈ ds, ∀ tag ∈ d.tags, ∀ tag' ∈ d.tags, tag.name = tag'.name → tag = tag'

lemma distinct_described (h : registry.Orderly) : Distinct (described registry) := by
  have declared {d : Declaration} (hd : d ∈ described registry) :
      d ∈ registry.declarations ∧ d.Read := by
    obtain ⟨hd, other⟩ := List.mem_filter.1 hd
    exact ⟨hd, h.read d hd (by simpa using other)⟩
  constructor
  · exact fun d hd => (declared hd).2.undotted
  · exact fun d hd e he same => List.inj_on_of_nodup_map h.names (declared hd).1
      (declared he).1 same
  · intro d hd tag htag tag' htag' same
    exact List.inj_on_of_nodup_map (declared hd).2.tags_nodup htag htag' same

section Distinct

variable {ds : List Declaration} (distinct : Distinct ds)
include distinct

lemma Distinct.typeNode_injective (hd : d ∈ ds) (he : e ∈ ds)
    (same : typeNode options d = typeNode options e) : d = e :=
  distinct.names d hd e he (resource_injective same)

lemma Distinct.tagNode_ne_typeNode (he : e ∈ ds) : tagNode options d tag ≠ typeNode options e := by
  intro same
  have dotted : '.' ∈ e.name.toList := by
    rw [← resource_injective same]
    simp [String.toList_append]
  exact distinct.undotted e he dotted

lemma Distinct.tagNode_injective (hd : d ∈ ds) (htag : tag ∈ d.tags) (he : e ∈ ds)
    (htag' : tag' ∈ e.tags) (same : tagNode options d tag = tagNode options e tag') :
    d = e ∧ tag = tag' := by
  obtain ⟨hname, htags⟩ := eq_of_dotted (distinct.undotted d hd) (distinct.undotted e he)
    (resource_injective same)
  obtain rfl := distinct.names d hd e he hname
  exact ⟨rfl, distinct.tags d hd tag htag tag' htag' htags⟩

end Distinct

/-! ## Leading predicates -/

/-- The predicates that say what a resource is, what it is called and how many arguments it
takes. -/
def leading : List String :=
  [Rdf.type, Rdfs.label, name "arity", name "constructorOf"]

/-- A graph comes from another one by adding triples, and of those that it adds with leading
predicates, all are among the given ones. -/
structure Adds (ts : List Triple) (g g' : Graph) : Prop where
  nodup : g.triples.Nodup → g'.triples.Nodup
  mem : ∀ t, t.predicate ∈ leading → (t ∈ g'.triples ↔ t ∈ g.triples ∨ t ∈ ts)

lemma Adds.refl (g : Graph) : Adds [] g g :=
  ⟨id, by simp⟩

lemma Adds.trans {ts us : List Triple} {g g' g'' : Graph} (h : Adds ts g g') (h' : Adds us g' g'') :
    Adds (ts ++ us) g g'' where
  nodup := h'.nodup ∘ h.nodup
  mem t lead := by rw [h'.mem t lead, h.mem t lead, List.mem_append, or_assoc]

lemma adds_addAll (ts : List Triple) (g : Graph) : Adds ts g (g.addAll ts) :=
  ⟨Graph.nodup_addAll, fun _ _ => Graph.mem_addAll⟩

lemma adds_add (t : Triple) (g : Graph) : Adds [t] g (g.add t) :=
  adds_addAll [t] g

lemma ne_of_leading (lead : t.predicate ∈ leading) {predicate : String}
    (side : predicate ∉ leading) : t.predicate ≠ predicate := by
  rintro rfl
  exact side lead

/-- A triple with another predicate. -/
lemma adds_aside (g : Graph) (subject object : Node) {predicate : String}
    (side : predicate ∉ leading) : Adds [] g (g.add ⟨subject, predicate, object⟩) where
  nodup := Graph.nodup_add
  mem t lead := by
    have other : t ≠ ⟨subject, predicate, object⟩ := by
      rintro rfl
      exact side lead
    simp [Graph.mem_add, other]

/-- A list is written with other predicates than the leading ones. -/
lemma adds_addListTriple (g : Graph) (subject : Node) (items : List Node) {predicate : String}
    (side : predicate ∉ leading) : Adds [] g (addListTriple g subject predicate items) := by
  have cells : Adds [] g (g.addList items).2 := by
    refine ⟨Graph.nodup_addList, fun t lead => ?_⟩
    rw [Graph.mem_addList (ne_of_leading lead (by decide)) (ne_of_leading lead (by decide))]
    simp
  exact cells.trans (adds_aside _ _ _ side)

/-! ## What is said of a declaration -/

/-- What a declaration is: a type of some arity, with its notation text. -/
def headTriples (options : VocabularyOptions) (d : Declaration) : List Triple :=
  let node := typeNode options d
  [⟨node, Rdf.type, .iri (name "Type")⟩, ⟨node, name "arity", .integer d.arity⟩,
    ⟨node, name "text", .text d.body.text⟩]

/-- What a declaration is called. -/
def labelTriple (options : VocabularyOptions) (d : Declaration) : Triple :=
  ⟨typeNode options d, Rdfs.label, .text d.name⟩

/-- The triples about the resource of a declaration, but for its parameters and the parts of a
delegation. -/
def typeFacts (options : VocabularyOptions) (d : Declaration) : List Triple :=
  headTriples options d ++ [labelTriple options d]

/-- The triples about the resources of a declaration and of its constructors. -/
def ownTriples (options : VocabularyOptions) (d : Declaration) : List Triple :=
  typeFacts options d ++ d.tags.flatMap (tagTriples options d)

/-- The parts of a delegation, if they are asked for. -/
def addDelegation (options : VocabularyOptions) (registry : Registry) (g : Graph)
    (d : Declaration) : Graph :=
  match d.body with
  | .delegation _ base targets =>
    if options.delegation then
      addListTriple (g.add ⟨typeNode options d, name "base", referenceNode options registry base⟩)
        (typeNode options d) (name "delegatesTo") (targets.map (referenceNode options registry))
    else g
  | _ => g

lemma adds_addDelegation (options : VocabularyOptions) (registry : Registry) (g : Graph)
    (d : Declaration) : Adds [] g (addDelegation options registry g d) := by
  unfold addDelegation
  split
  · split
    · exact (adds_aside g _ _ (by decide)).trans (adds_addListTriple _ _ _ (by decide))
    · exact .refl g
  · exact .refl g

/-- The parameters, if there are any. -/
def addParameters (options : VocabularyOptions) (g : Graph) (d : Declaration) : Graph :=
  if d.parameters.isEmpty then g
  else addListTriple g (typeNode options d) (name "parameters") (d.letters.map .text)

lemma adds_addParameters (options : VocabularyOptions) (g : Graph) (d : Declaration) :
    Adds [] g (addParameters options g d) := by
  unfold addParameters
  split
  · exact .refl g
  · exact adds_addListTriple _ _ _ (by decide)

/-- The steps in which a declaration is described, if labels and constructors are asked for. -/
lemma addDeclaration_eq (labels : options.labels = true)
    (constructors : options.constructors = true) :
    addDeclaration options registry g d =
      let g := addParameters options (g.addAll (headTriples options d)) d
      let g := addDelegation options registry (g.add (labelTriple options d)) d
      g.addAll (d.tags.flatMap (tagTriples options d)) := by
  obtain ⟨name, parameters, body, position⟩ := d
  unfold addDeclaration
  simp only [labels, constructors, if_true]
  cases body <;> rfl

lemma adds_addDeclaration (labels : options.labels = true)
    (constructors : options.constructors = true) (registry : Registry) (g : Graph)
    (d : Declaration) : Adds (ownTriples options d) g (addDeclaration options registry g d) := by
  rw [addDeclaration_eq labels constructors]
  have head := (adds_addAll (headTriples options d) g).trans (adds_addParameters options _ d)
  have label := head.trans (adds_add (labelTriple options d) _)
  have parts := label.trans (adds_addDelegation options registry _ d)
  simpa only [ownTriples, typeFacts, List.append_nil] using parts.trans (adds_addAll _ _)

lemma adds_foldl_addDeclaration (labels : options.labels = true)
    (constructors : options.constructors = true) (registry : Registry) (g : Graph)
    (ds : List Declaration) :
    Adds (ds.flatMap (ownTriples options)) g (ds.foldl (addDeclaration options registry) g) := by
  induction ds generalizing g with
  | nil => exact .refl g
  | cons d ds ih =>
    exact (adds_addDeclaration labels constructors registry g d).trans (ih _)

/-- The taxonomy adds triples with another predicate. -/
lemma adds_taxonomy {s s' : Session} {triples : List Triple}
    (run : outcome (taxonomy options) s = (.ok triples, s')) (g : Graph) :
    Adds [] g (g.addAll triples) := by
  refine ⟨Graph.nodup_addAll, fun t lead => ?_⟩
  obtain ⟨types, r, s₁, -, -, rfl⟩ := outcome_taxonomy run
  have other : t ∉ (reduced r).map fun p => edge options p.1 p.2 := by
    intro ht
    obtain ⟨p, -, rfl⟩ := List.mem_map.1 ht
    exact absurd lead (by simp only [edge]; decide)
  simp [Graph.mem_addAll, other]

/-- What a vocabulary says with leading predicates. -/
lemma adds_build {s : Session} (labels : options.labels = true)
    (constructors : options.constructors = true)
    (built : (outcome (build options) s).1 = .ok g) :
    Adds ((described s.registry).flatMap (ownTriples options)) Graph.empty g := by
  have declared := adds_foldl_addDeclaration labels constructors s.registry Graph.empty
    (described s.registry)
  unfold build at built
  simp only [outcome_bind, outcome_get] at built
  split at built
  · rw [outcome_bind] at built
    rcases run : outcome (taxonomy options) s with ⟨fault | triples, s'⟩ <;> rw [run] at built
    · cases built
    · cases built
      simpa using declared.trans (adds_taxonomy run _)
  · cases built
    exact declared

/-! ## What is said of one resource -/

lemma subject_of_typeFacts (h : t ∈ typeFacts options d) : t.subject = typeNode options d := by
  simp only [typeFacts, headTriples, labelTriple, List.cons_append, List.nil_append, List.mem_cons,
    List.not_mem_nil, or_false] at h
  rcases h with rfl | rfl | rfl | rfl <;> rfl

lemma subject_of_tagTriples (h : t ∈ tagTriples options d tag) :
    t.subject = tagNode options d tag := by
  unfold tagTriples at h
  split at h
  · simp only [List.cons_append, List.nil_append, List.mem_cons, List.not_mem_nil, or_false] at h
    rcases h with rfl | rfl | rfl | rfl <;> rfl
  · simp only [List.append_nil, List.mem_cons, List.not_mem_nil, or_false] at h
    rcases h with rfl | rfl | rfl <;> rfl

section Said

variable {ds : List Declaration} (distinct : Distinct ds)
  (adds : Adds (ds.flatMap (ownTriples options)) Graph.empty g)
include adds

lemma mem_iff_own {subject object : Node} {predicate : String} (lead : predicate ∈ leading) :
    ⟨subject, predicate, object⟩ ∈ g.triples ↔
      ∃ d ∈ ds, ⟨subject, predicate, object⟩ ∈ typeFacts options d ∨
        ∃ tag ∈ d.tags, ⟨subject, predicate, object⟩ ∈ tagTriples options d tag := by
  simp only [adds.mem ⟨subject, predicate, object⟩ lead, Graph.empty, List.not_mem_nil, false_or,
    List.mem_flatMap, ownTriples, List.mem_append]

include distinct

/-- What is said about the resource of a declaration is said on account of the declaration. -/
lemma mem_iff_typeFacts (hd : d ∈ ds) {predicate : String} (lead : predicate ∈ leading)
    (o : Node) : ⟨typeNode options d, predicate, o⟩ ∈ g.triples ↔
      ⟨typeNode options d, predicate, o⟩ ∈ typeFacts options d := by
  rw [mem_iff_own adds lead]
  constructor
  · rintro ⟨e, he, said | ⟨tag, -, said⟩⟩
    · exact distinct.typeNode_injective hd he (subject_of_typeFacts said) ▸ said
    · exact absurd (subject_of_tagTriples said).symm (distinct.tagNode_ne_typeNode hd)
  · exact fun said => ⟨d, hd, .inl said⟩

/-- What is said about the resource of a constructor is said on account of the constructor. -/
lemma mem_iff_tagTriples (hd : d ∈ ds) (htag : tag ∈ d.tags) {predicate : String}
    (lead : predicate ∈ leading) (o : Node) : ⟨tagNode options d tag, predicate, o⟩ ∈ g.triples ↔
      ⟨tagNode options d tag, predicate, o⟩ ∈ tagTriples options d tag := by
  rw [mem_iff_own adds lead]
  constructor
  · rintro ⟨e, he, said | ⟨tag', htag', said⟩⟩
    · exact absurd (subject_of_typeFacts said) (distinct.tagNode_ne_typeNode he)
    · obtain ⟨rfl, rfl⟩ := distinct.tagNode_injective hd htag he htag' (subject_of_tagTriples said)
      exact said
  · exact fun said => ⟨d, hd, .inr ⟨tag, htag, said⟩⟩

end Said

/-! ## A vocabulary -/

/-- A node has one kind, one number of arguments and one label. -/
structure DescribedAs (g : Graph) (node : Node) (kind : String) (arity : Nat) (label : String) :
    Prop where
  kind : g.objects node Rdf.type = [.iri kind]
  arity : g.objects node (name "arity") = [.integer arity]
  label : g.objects node Rdfs.label = [.text label]

/-- A graph has one resource for each of some declarations, and one for each of their constructors,
and describes each of these once. -/
structure DescribesOnce (options : VocabularyOptions) (ds : List Declaration)
    (g : Graph) : Prop where
  types : ∀ node, ⟨node, Rdf.type, .iri (name "Type")⟩ ∈ g.triples ↔
    ∃ d ∈ ds, node = typeNode options d
  constructors : ∀ node, ⟨node, Rdf.type, .iri (name "Constructor")⟩ ∈ g.triples ↔
    ∃ d ∈ ds, ∃ tag ∈ d.tags, node = tagNode options d tag
  apart : ∀ d ∈ ds, ∀ tag ∈ d.tags, ∀ e ∈ ds, tagNode options d tag ≠ typeNode options e ∧
    ∀ tag' ∈ e.tags, tagNode options d tag = tagNode options e tag' → d = e ∧ tag = tag'
  type_once : ∀ d ∈ ds, DescribedAs g (typeNode options d) (name "Type") d.arity d.name
  tag_once : ∀ d ∈ ds, ∀ tag ∈ d.tags,
    DescribedAs g (tagNode options d tag) (name "Constructor") tag.fields.length tag.name
  labels : ∀ d ∈ ds, ∀ label, (∃ node,
    ⟨node, name "constructorOf", typeNode options d⟩ ∈ g.triples ∧
    ⟨node, Rdfs.label, label⟩ ∈ g.triples) ↔ ∃ tag ∈ d.tags, label = .text tag.name

lemma mem_typeFacts {node o : Node} {predicate : String} :
    ⟨node, predicate, o⟩ ∈ typeFacts options d ↔ node = typeNode options d ∧
      (predicate = Rdf.type ∧ o = .iri (name "Type") ∨
        predicate = name "arity" ∧ o = .integer d.arity ∨
        predicate = name "text" ∧ o = .text d.body.text ∨
        predicate = Rdfs.label ∧ o = .text d.name) := by
  simp only [typeFacts, headTriples, labelTriple, List.cons_append, List.nil_append, List.mem_cons,
    List.not_mem_nil, or_false, Triple.mk.injEq, and_or_left]

lemma mem_tagTriples (labels : options.labels = true) {node o : Node} {predicate : String} :
    ⟨node, predicate, o⟩ ∈ tagTriples options d tag ↔ node = tagNode options d tag ∧
      (predicate = Rdf.type ∧ o = .iri (name "Constructor") ∨
        predicate = name "constructorOf" ∧ o = typeNode options d ∨
        predicate = name "arity" ∧ o = .integer tag.fields.length ∨
        predicate = Rdfs.label ∧ o = .text tag.name) := by
  simp only [tagTriples, labels, if_true, List.cons_append, List.nil_append, List.mem_cons,
    List.not_mem_nil, or_false, Triple.mk.injEq, and_or_left]
  exact Iff.rfl

section Said

variable {ds : List Declaration} (distinct : Distinct ds)
  (adds : Adds (ds.flatMap (ownTriples options)) Graph.empty g)
include distinct adds

lemma describedAs_type (hd : d ∈ ds) :
    DescribedAs g (typeNode options d) (name "Type") d.arity d.name := by
  have nodup : g.triples.Nodup := adds.nodup List.nodup_nil
  constructor <;> refine Graph.objects_eq_singleton nodup fun o => ?_ <;>
    rw [mem_iff_typeFacts distinct adds hd (by decide), mem_typeFacts] <;> simp +decide

lemma describedAs_tag (labels : options.labels = true) (hd : d ∈ ds) (htag : tag ∈ d.tags) :
    DescribedAs g (tagNode options d tag) (name "Constructor") tag.fields.length tag.name := by
  have nodup : g.triples.Nodup := adds.nodup List.nodup_nil
  constructor <;> refine Graph.objects_eq_singleton nodup fun o => ?_ <;>
    rw [mem_iff_tagTriples distinct adds hd htag (by decide), mem_tagTriples labels] <;>
      simp +decide

lemma describesOnce (labels : options.labels = true) : DescribesOnce options ds g where
  types node := by
    rw [mem_iff_own adds (by decide)]
    constructor
    · rintro ⟨d, hd, said | ⟨tag, -, said⟩⟩
      · exact ⟨d, hd, subject_of_typeFacts said⟩
      · simp +decide [mem_tagTriples labels] at said
    · rintro ⟨d, hd, rfl⟩
      exact ⟨d, hd, .inl (mem_typeFacts.2 ⟨rfl, .inl ⟨rfl, rfl⟩⟩)⟩
  constructors node := by
    rw [mem_iff_own adds (by decide)]
    constructor
    · rintro ⟨d, hd, said | ⟨tag, htag, said⟩⟩
      · simp +decide [mem_typeFacts] at said
      · exact ⟨d, hd, tag, htag, subject_of_tagTriples said⟩
    · rintro ⟨d, hd, tag, htag, rfl⟩
      exact ⟨d, hd, .inr ⟨tag, htag, (mem_tagTriples labels).2 ⟨rfl, .inl ⟨rfl, rfl⟩⟩⟩⟩
  apart d hd tag htag e he := ⟨distinct.tagNode_ne_typeNode he, fun tag' htag' same =>
    distinct.tagNode_injective hd htag he htag' same⟩
  type_once d hd := describedAs_type distinct adds hd
  tag_once d hd tag htag := describedAs_tag distinct adds labels hd htag
  labels d hd label := by
    constructor
    · rintro ⟨node, owned, labelled⟩
      rw [mem_iff_own adds (by decide)] at owned
      obtain ⟨e, he, said | ⟨tag, htag, said⟩⟩ := owned
      · simp +decide [mem_typeFacts] at said
      · obtain ⟨rfl, same⟩ : node = tagNode options e tag ∧ typeNode options d =
          typeNode options e := by
          simpa +decide [mem_tagTriples labels] using said
        obtain rfl := distinct.typeNode_injective hd he same
        rw [mem_iff_tagTriples distinct adds hd htag (by decide), mem_tagTriples labels] at labelled
        exact ⟨tag, htag, by simpa +decide using labelled⟩
    · rintro ⟨tag, htag, rfl⟩
      refine ⟨tagNode options d tag, ?_, ?_⟩ <;>
        rw [mem_iff_tagTriples distinct adds hd htag (by decide), mem_tagTriples labels]
      · exact ⟨rfl, .inr (.inl ⟨rfl, rfl⟩)⟩
      · exact ⟨rfl, .inr (.inr (.inr ⟨rfl, rfl⟩))⟩

end Said

/-- The vocabulary of a registry whose declarations were read has one resource for each declaration
and one for each constructor, all of them different, and says once of each what it is, how many
arguments it takes and what it is called.  The constructors that belong to a declaration are called
by the names in its body, and by no others. -/
theorem vocabulary_describes_once {s : Session} (parsed : s.registry.Parsed)
    (labels : options.labels = true) (constructors : options.constructors = true)
    (built : (outcome (build options) s).1 = .ok g) :
    DescribesOnce options (described s.registry) g :=
  describesOnce (distinct_described parsed.orderly) (adds_build labels constructors built) labels

/-- Two declarations with constructors of the same names. -/
def twins : List Declaration :=
  [⟨"a", [⟨some ⟨1, 3⟩, ⟨"A", none⟩⟩], .tagged (.written (some ⟨1, 6⟩))
      [⟨"p", [.typeVariable (.written (some ⟨1, 8⟩)) ⟨"A", none⟩]⟩, ⟨"q", []⟩], some ⟨1, 1⟩⟩,
    ⟨"b", [⟨some ⟨2, 3⟩, ⟨"B", none⟩⟩], .tagged (.written (some ⟨2, 6⟩)) [⟨"p", []⟩, ⟨"q", []⟩],
      some ⟨2, 1⟩⟩]

lemma parse_twins : parse "a A: p A | q\nb B: p | q" = .ok twins := by
  cbv

/-- A session in which they have been loaded. -/
def twinned : Session :=
  (outcome (Action.load twins) (.ofRegistry .empty)).2

lemma parsed_twinned : twinned.registry.Parsed :=
  .load (.start List.mem_cons_self) (fun _ hd => ⟨_, _, parse_twins, hd⟩) rfl

/-- Each of the two has its own resources for its constructors. -/
theorem vocabulary_describes_once_twins : ∃ g,
    (outcome (build (.standard false)) twinned).1 = .ok g ∧
      DescribesOnce (.standard false) twins g :=
  ⟨_, rfl, vocabulary_describes_once parsed_twinned rfl rfl rfl⟩

end Vocabulary

end TypeNotation
