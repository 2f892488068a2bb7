import TypeNotation.Parser.Atoms

/-!
# Operators

The productions for operators, tightest first: delegation, complement, union, bar, function and
predicate.  `Parser.type` ties the knot between them and the types in brackets.

Alternatives separated by bars make up constructors where they are a whole declaration or field and
all start with a bare name; anywhere else a bar means a union.
-/

namespace TypeNotation

namespace Parser

/-- A chain of delegations, which groups to the left.  The targets of each are separated by commas.
-/
def delegation (type : TypeParser) (commas : Bool) : Parser TypeExpr := do
  let start ← peek
  let base ← application type
  repeatWhile (frontIsMark .delegates) (fun base => do
    takeMark .delegates
    let first ← application type
    let targets ← repeatWhile (commaContinues commas) (fun targets => do
      takeMark .comma
      return targets ++ [← application type]) [first]
    return .delegation (.written start.position) base targets) base

/-- A chain of complements, which groups to the left. -/
def complement (type : TypeParser) (commas : Bool) : Parser TypeExpr := do
  let start ← peek
  let first ← delegation type commas
  repeatWhile (frontIsMark .backslash) (fun left => do
    takeMark .backslash
    return .complement (.written start.position) left (← delegation type commas)) first

/-- A chain of unions, which groups to the left. -/
def union (type : TypeParser) (commas : Bool) : Parser TypeExpr := do
  let start ← peek
  let first ← complement type commas
  repeatWhile (frontIsMark .plus) (fun left => do
    takeMark .plus
    return .union (.written start.position) left (← complement type commas)) first

/-! ## Alternatives -/

/-- A constructor, from an alternative that is a name with arguments. -/
def tagOf? : TypeExpr → Option (Tag TypeExpr)
  | .reference _ name args => some ⟨name, args⟩
  | _ => none

/-- Whether what follows allows the alternatives before it to be constructors: they are no input of
a function and no item of a list. -/
def endsAlternatives (commas : Bool) (tokens : List Token) : Bool :=
  !(frontIsMark .arrow tokens || frontIsMark .question tokens || frontIsMark .ellipsis tokens) &&
    !commaContinues commas tokens

/-- Collect constructors, refusing the first whose name is taken. -/
def distinctTags (start : Position) (earlier : List (Tag TypeExpr)) :
    List TypeExpr → Except Stop (List (Tag TypeExpr))
  | [] => .ok earlier
  | t :: rest =>
    match tagOf? t with
    | some g =>
      if earlier.any (·.name = g.name) then
        .error (.refused (.repeatedName (t.position.getD start) "tag" g.name))
      else distinctTags start (earlier ++ [g]) rest
    | none => .error .broken

/-- The union of alternatives, grouped to the left.  Only the whole has a position. -/
def unionOf (start : Position) (first : TypeExpr) : List TypeExpr → TypeExpr
  | [] => first
  | [last] => .union (.written start) first last
  | t :: rest => unionOf start (.union (.written none) first t) rest

/-- Alternatives separated by bars. -/
def alternatives (type : TypeParser) (around : Surroundings) : Parser TypeExpr := do
  let start ← peek
  let first ← union type around.commas
  let more ← repeatWhile (frontIsMark .bar) (fun more => do
    takeMark .bar
    return more ++ [← union type around.commas]) []
  if more.isEmpty then return first
  let all := first :: more
  if around.top && (← asks (endsAlternatives around.commas)) && all.all (tagOf? · |>.isSome) then
    return .tagged (.written start.position) (← ofResult (distinctTags start.position [] all))
  else return unionOf start.position first more

/-! ## Functions -/

/-- A type with its suffix, if it has one. -/
def parameter (type : TypeParser) (around : Surroundings) : Parser (Parameter TypeExpr) := do
  let start ← peek
  let t ← alternatives type around
  let suffix ← do
    if ← asks (frontIsMark .question) then
      takeMark .question
      pure Suffix.optional
    else if ← asks (frontIsMark .ellipsis) then
      takeMark .ellipsis
      pure Suffix.variadic
    else pure Suffix.none
  return ⟨t, suffix, start.position⟩

/-- Parameters separated by commas. -/
def parameters (type : TypeParser) (around : Surroundings) :
    Parser (List (Parameter TypeExpr)) := do
  let first ← parameter type around
  repeatWhile (commaContinues around.commas) (fun ps => do
    takeMark .comma
    return ps ++ [← parameter type around]) [first]

/-- The place of a parameter. -/
def placeOf (p : Parameter TypeExpr) : Except Stop Position :=
  match p.position with
  | some place => .ok place
  | none => .error .broken

/-- The outputs of a function, none of which may have a suffix. -/
def outputsOf : List (Parameter TypeExpr) → Except Stop (List TypeExpr)
  | [] => .ok []
  | p :: rest =>
    if p.suffix = .none then (outputsOf rest).map (p.type :: ·)
    else do
      let place ← placeOf p
      .error (.refused (.unexpected place "an output type without suffix" p.text))

/-- Refuse an input that takes any number of arguments and is not the last. -/
def checkInputs : List (Parameter TypeExpr) → Except Stop Unit
  | [] => .ok ()
  | [_] => .ok ()
  | p :: rest =>
    if p.suffix = .variadic then do
      let place ← placeOf p
      .error (.refused (.variadicNotLast place p.text))
    else checkInputs rest

/-- The function from inputs through the groups of parameters behind the arrows.  Arrows group to
the right: each group but the last is the inputs of a function that is the only output of the one
before. -/
def functionOf (start : Position) (inputs : List (Parameter TypeExpr)) :
    List (Position × List (Parameter TypeExpr)) → Except Stop TypeExpr
  | [] => .ok (.function (.written start) inputs [])
  | [(_, last)] => do
    let outputs ← outputsOf last
    checkInputs inputs
    return .function (.written start) inputs outputs
  | (p, group) :: rest => do
    let output ← functionOf p group rest
    checkInputs inputs
    return .function (.written start) inputs [output]

/-- A single type without a suffix, where no arrow comes after it. -/
def withoutArrow : List (Parameter TypeExpr) → Parser TypeExpr
  | [⟨t, .none, _⟩] => return t
  | _ => refuse "'->'"

/-- A function, or a single type. -/
def function (type : TypeParser) (around : Surroundings) : Parser TypeExpr := do
  let start ← peek
  let inputs ← if ← asks (frontIsMark .arrow) then pure [] else parameters type around
  let groups ← repeatWhile (frontIsMark .arrow) (fun groups => do
    takeMark .arrow
    let inner ← peek
    return groups ++ [(inner.position, ← parameters type ⟨around.commas, false⟩)]) []
  if !groups.isEmpty then ofResult (functionOf start.position inputs groups)
  else withoutArrow inputs

/-! ## Predicates -/

/-- The variables that a predicate lists, and the tokens after the colon behind them.  There is no
such list if the tokens do not start with variables, separated by commas where commas are allowed,
and a colon. -/
def binders? (commas : Bool) : List Token → Option (List Binder × List Token)
  | [] => none
  | t :: rest =>
    if !t.isVariable then none
    else
      let b : Binder := ⟨t.position, ⟨t.text, none⟩⟩
      match rest with
      | ⟨.mark .colon, _, _⟩ :: after => some ([b], after)
      | ⟨.mark .comma, _, _⟩ :: after =>
        if commas then (binders? commas after).map fun (bs, left) => (b :: bs, left) else none
      | _ => none

/-- Take the variables that a predicate lists. -/
def binders (commas : Bool) : Parser (List Binder) := do
  match binders? commas (← get) with
  | some (bs, after) =>
    set after
    return bs
  | none => return []

/-- A type.  The bound is on how deeply types stand inside brackets and behind predicate arrows;
each level takes a token, so that the number of tokens is enough. -/
def type : Nat → TypeParser
  | 0, _ => throw .exhausted
  | bound + 1, around => do
    let start ← peek
    let listed ← binders around.commas
    if listed.isEmpty then
      let t ← function (type bound) around
      if ← asks (frontIsMark .implies) then
        takeMark .implies
        return .predicate (.written start.position) t (← type bound around) []
      else return t
    else
      let constraint ← function (type bound) ⟨around.commas, false⟩
      takeMark .implies
      return .predicate (.written start.position) constraint (← type bound around) listed

end Parser

end TypeNotation
