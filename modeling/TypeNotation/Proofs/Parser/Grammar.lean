import TypeNotation.Proofs.Parser.Reading
import TypeNotation.Proofs.TypeExpr.Sameness

/-!
# The grammar of types

A *phrase* of a binding level is a sequence of tokens that denotes a type wherever the context binds
no tighter than the level.  The grammar says what the phrases are, without a word on how they are
found: an operator has a phrase of its own level on its left and one of the next tighter level on
its right; whatever stands in brackets is an atom; the arguments of a name are atoms, one after the
other.  It leaves out records, functions, predicates and alternatives.

The productions of the parser find every phrase.  How far a production reads is decided by the token
after the phrase.  Each kind of token has a *grip* on a type before it, and a production of a level
stops at a token whose grip is no stronger than the level.
-/

namespace TypeNotation

open TypeExpr

/-! ## Operators -/

/-- The binary operators.  All of them group to the left. -/
inductive Operator where
  | union
  | complement
  | delegation

namespace Operator

/-- The binding level of an operator. -/
def level : Operator → Level
  | union => .union
  | complement => .complement
  | delegation => .delegation

/-- The level of what stands on the right of an operator. -/
def tighter : Operator → Level
  | union => .complement
  | complement => .delegation
  | delegation => .application

/-- The mark of an operator. -/
def mark : Operator → Punctuation
  | union => .plus
  | complement => .backslash
  | delegation => .delegates

/-- The type that an operator makes of two others. -/
def node (m : Mark) (left right : TypeExpr) : Operator → TypeExpr
  | union => .union m left right
  | complement => .complement m left right
  | delegation => .delegation m left [right]

lemma node_same {o : Operator} {m m' : Mark} {l l' r r' : TypeExpr} (hl : l.same l' = true)
    (hr : r.same r' = true) : (o.node m l r).same (o.node m' l' r') = true := by
  cases o <;> simp [node, same, sameAll, hl, hr]

end Operator

/-! ## Phrases -/

/-- The tokens of a number: a literal, or a power of a literal. -/
inductive NumberPhrase : List Token → Numeral → Prop
  | literal {k : Token} {x : Number} (hk : k.kind = .number x) (p : Option Position) :
    NumberPhrase [k] (.literal p x)
  | power {k c : Token} {ts : List Token} {x : Number} {e : Numeral} (hk : k.kind = .number x)
    (hc : c.kind = .mark .caret) (he : NumberPhrase ts e) (p q : Option Position) :
    NumberPhrase (k :: c :: ts) (.power p (.literal q x) e)

mutual

/-- The tokens of a type, in a context of a binding level. -/
inductive Phrase : Level → List Token → TypeExpr → Prop
  | looser {ℓ ℓ' : Level} {ts : List Token} {t : TypeExpr} (h : ℓ'.strength ≤ ℓ.strength)
    (ht : Phrase ℓ ts t) : Phrase ℓ' ts t
  | unit {k : Token} (hk : k.kind = .void) (m : Mark) : Phrase .atom [k] (.unit m)
  | typeVariable {k : Token} (hk : k.isVariable = true) (m : Mark) :
    Phrase .atom [k] (.typeVariable m ⟨k.text, none⟩)
  | number {ts : List Token} {x : Numeral} (hx : NumberPhrase ts x) : Phrase .atom ts (.number x)
  | interval {ts us : List Token} {k : Token} {x y : Numeral} (hx : NumberPhrase ts x)
    (hk : k.kind = .mark .ellipsis) (hy : NumberPhrase us y) (m : Mark) :
    Phrase .atom (ts ++ k :: us) (.interval m x y)
  | parentheses {ts : List Token} {k c : Token} {t : TypeExpr} (hk : k.kind = .mark .parenOpen)
    (ht : Phrase .predicate ts t) (hc : c.kind = .mark .parenClose) :
    Phrase .atom (k :: (ts ++ [c])) t
  | list {ts : List Token} {k c : Token} {members : List TypeExpr}
    (hk : k.kind = .mark .bracketOpen) (h : Items ts members) (hc : c.kind = .mark .bracketClose)
    (m : Mark) : Phrase .atom (k :: (ts ++ [c])) (listOf m members)
  | tuple {ts : List Token} {k c : Token} {items : List TypeExpr} (hk : k.kind = .mark .tupleOpen)
    (h : Items ts items) (hc : c.kind = .mark .bracketClose) (m : Mark) :
    Phrase .atom (k :: (ts ++ [c])) (.tuple m items)
  | name {k : Token} (hk : k.kind = .name) (other : k.isVariable = false) (m : Mark) :
    Phrase .atom [k] (.reference m k.text [])
  | application {ts : List Token} {k : Token} {args : List TypeExpr} (hk : k.kind = .name)
    (other : k.isVariable = false) (h : Arguments ts args) (m : Mark) :
    Phrase .application (k :: ts) (.reference m k.text args)
  | operation {ts us : List Token} {k : Token} {l r : TypeExpr} (o : Operator)
    (hl : Phrase o.level ts l) (hk : k.kind = .mark o.mark) (hr : Phrase o.tighter us r)
    (m : Mark) : Phrase o.level (ts ++ k :: us) (o.node m l r)

/-- The tokens of arguments. -/
inductive Arguments : List Token → List TypeExpr → Prop
  | nil : Arguments [] []
  | cons {ts us : List Token} {t : TypeExpr} {args : List TypeExpr} (ht : Phrase .atom ts t)
    (h : Arguments us args) : Arguments (ts ++ us) (t :: args)

/-- The tokens of items that are separated by commas. -/
inductive Items : List Token → List TypeExpr → Prop
  | nil : Items [] []
  | last {ts : List Token} {t : TypeExpr} (ht : Phrase .predicate ts t) : Items ts [t]
  | cons {ts us : List Token} {k : Token} {t : TypeExpr} {items : List TypeExpr}
    (ht : Phrase .predicate ts t) (hk : k.kind = .mark .comma) (h : Items us items) :
    Items (ts ++ k :: us) (t :: items)

end

/-! ### Where phrases start -/

lemma NumberPhrase.exists_cons {ts : List Token} {x : Numeral} (h : NumberPhrase ts x) :
    ∃ k us y, ts = k :: us ∧ k.kind = .number y := by
  cases h with
  | literal hk => exact ⟨_, _, _, rfl, hk⟩
  | power hk => exact ⟨_, _, _, rfl, hk⟩

lemma Phrase.exists_cons {ℓ : Level} {ts : List Token} {t : TypeExpr} :
    Phrase ℓ ts t → ∃ k us, ts = k :: us ∧ k.kind.startsType = true
  | .looser _ ht => ht.exists_cons
  | .unit hk _ => ⟨_, _, rfl, congrArg TokenKind.startsType hk⟩
  | .typeVariable hk _ =>
    ⟨_, _, rfl, congrArg TokenKind.startsType (of_decide_eq_true (Bool.and_eq_true_iff.1 hk).1)⟩
  | .number hx => by
    obtain ⟨k, us, y, rfl, hk⟩ := hx.exists_cons
    exact ⟨k, us, rfl, congrArg TokenKind.startsType hk⟩
  | .interval hx _ _ _ => by
    obtain ⟨k, us, y, rfl, hk⟩ := hx.exists_cons
    exact ⟨k, _, rfl, congrArg TokenKind.startsType hk⟩
  | .parentheses hk _ _ => ⟨_, _, rfl, congrArg TokenKind.startsType hk⟩
  | .list hk _ _ _ => ⟨_, _, rfl, congrArg TokenKind.startsType hk⟩
  | .tuple hk _ _ _ => ⟨_, _, rfl, congrArg TokenKind.startsType hk⟩
  | .name hk _ _ => ⟨_, _, rfl, congrArg TokenKind.startsType hk⟩
  | .application hk _ _ _ => ⟨_, _, rfl, congrArg TokenKind.startsType hk⟩
  | .operation _ hl _ _ _ => by
    obtain ⟨k, us, rfl, starts⟩ := hl.exists_cons
    exact ⟨k, _, rfl, starts⟩

lemma newline_of_startsType {k : Token} (h : k.kind.startsType = true) : k.kind ≠ .newline := by
  intro hk
  rw [hk] at h
  cases h

/-! ## Grip -/

/-- How strong a hold a token has on a type before it: it goes on a phrase of every level that is
weaker.  A comma may go on a list of delegation targets, if commas may. -/
def TokenKind.grip (commas : Bool) : TokenKind → Nat
  | .newline | .finish => 0
  | .name | .void | .number _ => 7
  | .mark p =>
    match p with
    | .parenClose | .bracketClose | .braceClose => 0
    | .implies => 1
    | .arrow | .question => 2
    | .bar => 3
    | .plus => 4
    | .backslash => 5
    | .delegates => 6
    | .parenOpen | .bracketOpen | .tupleOpen | .braceOpen => 7
    | .caret | .ellipsis | .colon => 8
    | .comma => if commas then 8 else 0

/-- The grip of the token at the front. -/
def frontGrip (commas : Bool) (ts : List Token) : Nat :=
  (tokenAt ts 0).kind.grip commas

section Grip

variable {commas : Bool} {ts : List Token}

lemma frontGrip_cons (k : Token) (ts : List Token) :
    frontGrip commas (k :: ts) = k.kind.grip commas := rfl

lemma grip_of_startsType {k : TokenKind} (h : k.startsType = true) : k.grip commas = 7 := by
  cases k with
  | mark p => cases p <;> first | rfl | cases h
  | newline | finish => cases h
  | name | void | number => rfl

lemma grip_operator (o : Operator) :
    TokenKind.grip commas (.mark o.mark) = o.tighter.strength := by
  cases o <;> rfl

lemma frontIs_of_grip {k : TokenKind} (h : frontGrip commas ts < k.grip commas) :
    frontIs k ts = false := by
  rw [frontIs, decide_eq_false_iff_not]
  rintro rfl
  exact Nat.lt_irrefl _ h

lemma frontIsMark_of_grip {ℓ : Level} {p : Punctuation} (h : frontGrip commas ts ≤ ℓ.strength)
    (hp : ∀ commas, ℓ.strength < TokenKind.grip commas (.mark p)) : frontIsMark p ts = false :=
  frontIs_of_grip (Nat.lt_of_le_of_lt h (hp commas))

lemma startsType_of_grip (h : frontGrip commas ts ≤ Level.application.strength) :
    (tokenAt ts 0).kind.startsType = false := by
  rw [Bool.eq_false_iff]
  intro starts
  rw [frontGrip, grip_of_startsType starts] at h
  exact absurd h (by decide)

lemma commaContinues_of_grip (h : frontGrip commas ts ≤ Level.atom.strength) :
    commaContinues commas ts = false := by
  cases commas with
  | false => simp [commaContinues]
  | true =>
    have absent : frontIsMark .comma ts = false := frontIs_of_grip (Nat.lt_succ_of_le h)
    simp [commaContinues, absent]

end Grip

end TypeNotation
