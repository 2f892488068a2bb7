import Mathlib.Data.List.Forall2
import TypeNotation.Graph.RdfList

/-!
# Lists in a graph read back

A list is written as a chain of cells, each of them a new blank node with one item and one tail,
into a graph that may hold other lists already.  Since a cell is new, no cell gets a second item or
a second tail, and what is said about the nodes that were there stays as it was.  So every list that
was written is found again, however many are written after it, and they all share the one empty
list.

This needs two things of the graph to begin with: a blank node that it speaks of is one it has given
out, and the empty list has no item.  Items that count as nothing are left out, since reading stops
at them.
-/

namespace TypeNotation

namespace Graph

variable {g : Graph} {item tail head node : Node} {items : List Node}

/-! ## What is said about a node -/

/-- All that a subject is related to by a predicate. -/
def objects (g : Graph) (subject : Node) (predicate : String) : List Node :=
  (g.triples.filter fun t => t.subject = subject ∧ t.predicate = predicate).map (·.object)

lemma mem_objects {subject object : Node} {predicate : String} :
    object ∈ g.objects subject predicate ↔ ⟨subject, predicate, object⟩ ∈ g.triples := by
  constructor
  · intro h
    obtain ⟨t, ht, rfl⟩ := List.mem_map.1 h
    obtain ⟨present, same⟩ := List.mem_filter.1 ht
    obtain ⟨rfl, rfl⟩ := of_decide_eq_true same
    exact present
  · intro h
    exact List.mem_map.2 ⟨_, List.mem_filter.2 ⟨h, by simp⟩, rfl⟩

lemma value?_eq_head? (subject : Node) (predicate : String) :
    g.value? subject predicate = (g.objects subject predicate).head? := by
  rw [value?, objects, List.head?_map, List.head?_filter]

lemma objects_append (g : Graph) {more : List Triple} {blanks : Nat} {subject : Node}
    {predicate : String} :
    (Graph.mk (g.triples ++ more) blanks).objects subject predicate =
      g.objects subject predicate ++ (Graph.mk more blanks).objects subject predicate := by
  simp only [objects, List.filter_append, List.map_append]

/-! ## Graphs that lists can be written into -/

/-- A graph speaks of no blank node that it has still to give out, and the empty list has no item.
-/
structure Tidy (g : Graph) : Prop where
  given : ∀ t ∈ g.triples, ∀ i, t.subject = .blank i → i < g.blanks
  bare : ∀ t ∈ g.triples, t.subject = Rdf.nil → t.predicate ≠ Rdf.first

lemma tidy_empty : empty.Tidy :=
  ⟨fun _ h => absurd h List.not_mem_nil, fun _ h => absurd h List.not_mem_nil⟩

lemma Tidy.objects_nil (tidy : g.Tidy) : g.objects Rdf.nil Rdf.first = [] :=
  List.eq_nil_iff_forall_not_mem.2 fun _ h => tidy.bare _ (mem_objects.1 h) rfl rfl

/-- Nothing is said about a blank node that has still to be given out. -/
lemma Tidy.objects_new (tidy : g.Tidy) (predicate : String) :
    g.objects (.blank g.blanks) predicate = [] :=
  List.eq_nil_iff_forall_not_mem.2 fun _ h =>
    absurd (tidy.given _ (mem_objects.1 h) _ rfl) (Nat.lt_irrefl _)

/-! ## One cell -/

lemma first_ne_rest : Rdf.first ≠ Rdf.rest := by
  decide

/-- The cell is new, so that neither of its triples is there yet. -/
lemma Tidy.cons_eq (tidy : g.Tidy) (item tail : Node) :
    g.cons item tail = (.blank g.blanks, ⟨g.triples ++ [⟨.blank g.blanks, Rdf.first, item⟩,
      ⟨.blank g.blanks, Rdf.rest, tail⟩], g.blanks + 1⟩) := by
  have new (predicate : String) (object : Node) :
      ⟨.blank g.blanks, predicate, object⟩ ∉ g.triples := fun h =>
    absurd (tidy.given _ h _ rfl) (Nat.lt_irrefl _)
  have second : (⟨.blank g.blanks, Rdf.rest, tail⟩ : Triple) ∉
      g.triples ++ [⟨.blank g.blanks, Rdf.first, item⟩] := by
    simp [new, first_ne_rest.symm]
  simp [Graph.cons, newBlank, add, new, second]

lemma Tidy.cons (tidy : g.Tidy) (item tail : Node) : (g.cons item tail).2.Tidy := by
  rw [tidy.cons_eq]
  have cell {t : Triple} (new : t ∈ [(⟨.blank g.blanks, Rdf.first, item⟩ : Triple),
      ⟨.blank g.blanks, Rdf.rest, tail⟩]) : t.subject = .blank g.blanks := by
    rcases List.mem_pair.1 new with rfl | rfl <;> rfl
  constructor
  · intro t ht i hi
    rcases List.mem_append.1 ht with old | new
    · exact Nat.lt_succ_of_lt (tidy.given t old i hi)
    · cases (cell new).symm.trans hi
      exact Nat.lt_succ_self _
  · intro t ht hnil
    rcases List.mem_append.1 ht with old | new
    · exact tidy.bare t old hnil
    · cases (cell new).symm.trans hnil

/-- What is said about the other nodes stays as it was. -/
lemma Tidy.objects_cons_of_ne (tidy : g.Tidy) (hnode : node ≠ .blank g.blanks)
    (predicate : String) :
    (g.cons item tail).2.objects node predicate = g.objects node predicate := by
  rw [tidy.cons_eq, objects_append g]
  simp [objects, hnode.symm]

lemma Tidy.objects_first (tidy : g.Tidy) :
    (g.cons item tail).2.objects (g.cons item tail).1 Rdf.first = [item] := by
  rw [tidy.cons_eq, objects_append g, tidy.objects_new]
  simp [objects, first_ne_rest.symm]

lemma Tidy.objects_rest (tidy : g.Tidy) :
    (g.cons item tail).2.objects (g.cons item tail).1 Rdf.rest = [tail] := by
  rw [tidy.cons_eq, objects_append g, tidy.objects_new]
  simp [objects, first_ne_rest]

/-! ## Chains of cells -/

/-- A chain of cells holds items: each cell has one item, which counts as something, and one tail,
and the chain ends at the empty list, which has no item. -/
inductive IsList (g : Graph) : Node → List Node → Prop
  | nil (bare : g.objects Rdf.nil Rdf.first = []) : IsList g Rdf.nil []
  | cons {cell item tail : Node} {items : List Node} (first : g.objects cell Rdf.first = [item])
      (something : item.isSomething) (rest : g.objects cell Rdf.rest = [tail])
      (after : IsList g tail items) : IsList g cell (item :: items)

/-- A chain is read from its head to its end, if the bound allows. -/
lemma IsList.itemsFrom_eq (chain : g.IsList head items) {bound : Nat}
    (enough : items.length < bound) : g.itemsFrom bound head = (items, some Rdf.nil) := by
  induction chain generalizing bound with
  | nil bare =>
    obtain ⟨bound, rfl⟩ := Nat.exists_eq_succ_of_ne_zero (Nat.ne_of_gt enough)
    simp [itemsFrom, value?_eq_head?, bare]
  | cons first something rest _ ih =>
    obtain ⟨bound, rfl⟩ := Nat.exists_eq_succ_of_ne_zero (Nat.ne_of_gt (Nat.zero_lt_of_lt enough))
    have inner := ih (Nat.lt_of_succ_lt_succ enough)
    simp [itemsFrom, value?_eq_head?, first, rest, Option.filter, something, inner]

lemma IsList.getList?_eq (chain : g.IsList head items)
    (enough : items.length ≤ g.triples.length) : g.getList? head = some items := by
  simp only [getList?, chain.itemsFrom_eq (Nat.lt_succ_of_le enough), if_true]

/-- A cell in front of some list leaves a chain as it is. -/
lemma IsList.kept (tidy : g.Tidy) (chain : g.IsList head items) (new tail : Node) :
    (g.cons new tail).2.IsList head items := by
  induction chain with
  | nil => exact .nil (tidy.cons new tail).objects_nil
  | @cons cell item tail' items first something rest _ ih =>
    have old : cell ≠ .blank g.blanks := by
      rintro rfl
      simp [tidy.objects_new] at first
    exact .cons (tidy.objects_cons_of_ne old _ ▸ first) something
      (tidy.objects_cons_of_ne old _ ▸ rest) ih

/-! ## One list -/

lemma Tidy.addList (tidy : g.Tidy) (items : List Node) : (g.addList items).2.Tidy := by
  induction items with
  | nil => exact tidy
  | cons item items ih => exact ih.cons item _

lemma Tidy.length_addList (tidy : g.Tidy) (items : List Node) :
    (g.addList items).2.triples.length = g.triples.length + 2 * items.length := by
  induction items with
  | nil => rfl
  | cons item items ih =>
    change ((g.addList items).2.cons item (g.addList items).1).2.triples.length = _
    rw [(tidy.addList items).cons_eq, List.length_append, ih, List.length_cons]
    simp only [List.length_cons, List.length_nil]
    omega

lemma IsList.kept_addList (tidy : g.Tidy) (chain : g.IsList head items) (more : List Node) :
    (g.addList more).2.IsList head items := by
  induction more with
  | nil => exact chain
  | cons item more ih => exact ih.kept (tidy.addList more) item _

/-- A list that has been written is there. -/
lemma isList_addList (tidy : g.Tidy) (something : ∀ item ∈ items, item.isSomething) :
    (g.addList items).2.IsList (g.addList items).1 items := by
  induction items with
  | nil => exact .nil tidy.objects_nil
  | cons item items ih =>
    have before := tidy.addList items
    have chain := ih fun other h => something other (List.mem_cons_of_mem _ h)
    exact .cons before.objects_first (something item List.mem_cons_self) before.objects_rest
      (chain.kept before item _)

/-! ## Lists one after another -/

/-- Write lists and return their heads. -/
def addLists (g : Graph) : List (List Node) → List Node × Graph
  | [] => ([], g)
  | items :: calls =>
    let (head, g) := g.addList items
    let (heads, g) := g.addLists calls
    (head :: heads, g)

/-- A chain in a graph that has triples enough to read it. -/
structure Readable (g : Graph) (head : Node) (items : List Node) : Prop where
  chain : g.IsList head items
  enough : items.length ≤ g.triples.length

lemma Readable.addList (tidy : g.Tidy) (before : g.Readable head items) (more : List Node) :
    (g.addList more).2.Readable head items := by
  refine ⟨before.chain.kept_addList tidy more, ?_⟩
  rw [tidy.length_addList]
  exact Nat.le_add_right_of_le before.enough

lemma Readable.addLists (tidy : g.Tidy) (before : g.Readable head items)
    (calls : List (List Node)) : (g.addLists calls).2.Readable head items := by
  induction calls generalizing g with
  | nil => exact before
  | cons more calls ih => exact ih (tidy.addList more) (before.addList tidy more)

lemma readable_addList (tidy : g.Tidy) (something : ∀ item ∈ items, item.isSomething) :
    (g.addList items).2.Readable (g.addList items).1 items := by
  refine ⟨isList_addList tidy something, ?_⟩
  rw [tidy.length_addList]
  omega

/-- Lists that are written into one graph, one after another, are all there in the end: each call's
head has that call's items, in order and with repeats, and reading from it gives them. -/
theorem lists_read_back (tidy : g.Tidy) {calls : List (List Node)}
    (something : ∀ items ∈ calls, ∀ item ∈ items, item.isSomething) :
    List.Forall₂ (fun head items => (g.addLists calls).2.IsList head items ∧
      (g.addLists calls).2.getList? head = some items) (g.addLists calls).1 calls := by
  induction calls generalizing g with
  | nil => exact .nil
  | cons items calls ih =>
    have written := readable_addList tidy (something items List.mem_cons_self)
    have final := written.addLists (tidy.addList items) calls
    exact .cons ⟨final.chain, final.chain.getList?_eq final.enough⟩
      (ih (tidy.addList items) fun other h => something other (List.mem_cons_of_mem _ h))

/-- Two lists with an item in common, one of them with a repeat, and an empty one in between. -/
theorem lists_read_back_repeated :
    List.Forall₂ (fun head items =>
      (empty.addLists [[.text "a", .text "b", .text "a"], [], [.text "a"]]).2.IsList head items ∧
      (empty.addLists [[.text "a", .text "b", .text "a"], [], [.text "a"]]).2.getList? head =
        some items)
      [.blank 2, Rdf.nil, .blank 3] [[.text "a", .text "b", .text "a"], [], [.text "a"]] :=
  lists_read_back tidy_empty (by decide)

end Graph

end TypeNotation
