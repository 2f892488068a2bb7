import TypeNotation.Parser.Declarations
import TypeNotation.Proofs.Token.Join
import TypeNotation.Proofs.Token.Spelling

/-!
# What a name cannot be

The reserved words are read as other tokens than names, and a name of a single capital is a
variable.  So a token for a name that is no variable can name a type.  A name has no dot in it.
-/

namespace TypeNotation

/-- A text that can name a type or a constructor: neither a reserved word nor a single capital. -/
structure Nameable (name : String) : Prop where
  free : name ∉ reservedWords
  long : ∀ c, name.toList = [c] → Text.isCapital c = false

/-- A text without a dot. -/
def Undotted (name : String) : Prop :=
  '.' ∉ name.toList

/-- A token that is no name unless a name can have its text. -/
def Token.Sincere (t : Token) : Prop :=
  t.kind = .name → t.text ∉ reservedWords ∧ Undotted t.text

lemma Token.Sincere.nameable {t : Token} (h : t.Sincere) (name : t.kind = .name)
    (other : t.isVariable = false) : Nameable t.text where
  free := (h name).1
  long := by
    intro c hc
    simpa [Token.isVariable, name, hc] using other

lemma Lexeme.dot_notMem_nameRest (cs : List Char) : '.' ∉ nameRest cs := by
  induction cs with
  | nil => exact List.not_mem_nil
  | cons c cs ih =>
    have kept (other : c ≠ '.') : '.' ∉ c :: nameRest cs := by simp [other.symm, ih]
    rw [nameRest]
    split
    · rename_i goesOn
      refine kept ?_
      rintro rfl
      exact absurd goesOn (by decide)
    split
    · rename_i hyphen
      refine kept ?_
      rw [hyphen.1]
      decide
    · exact List.not_mem_nil

lemma Lexeme.dot_notMem_of_at {p : Position} {afterOperand : Bool} {c : Char}
    {cs word : List Char} (h : at_ p afterOperand c cs = .ok (.word word)) : '.' ∉ word := by
  obtain ⟨begins, rfl⟩ := begins_of_at h
  have other : c ≠ '.' := by
    rintro rfl
    exact absurd begins.starts (by decide)
  simp [other.symm, dot_notMem_nameRest cs]

lemma sincere_token? {lexeme : Lexeme} {p : Position} {breakCounts : Bool} {t : Token}
    (undotted : ∀ cs, lexeme = .word cs → '.' ∉ cs) (h : lexeme.token? p breakCounts = some t) :
    t.Sincere := by
  intro name
  cases lexeme with
  | word cs =>
    obtain rfl := Option.some.inj h
    have kind : Lexeme.wordKind cs = .name := name
    rw [Lexeme.wordKind] at kind
    split at kind
    · cases kind
    rename_i void
    split at kind
    · cases kind
    rename_i nan
    have differs (word : List Char) (hcs : cs ≠ word) : String.ofList cs ≠ String.ofList word :=
      fun h => hcs (String.ofList_injective h)
    simp only [reservedWords, List.mem_cons, List.not_mem_nil, or_false, not_or]
    refine ⟨⟨differs _ void, differs _ nan⟩, ?_⟩
    rw [Undotted, String.toList_ofList]
    exact undotted cs rfl
  | lineBreak =>
    rw [Lexeme.token?] at h
    split at h
    · cases h
      cases name
    · cases h
  | blank => cases h
  | comment => cases h
  | number cs x =>
    cases h
    cases name
  | mark q =>
    cases h
    cases name

lemma sincere_scanFrom {cs : List Char} {skip : Nat} {s : ScanState} {tokens : List Token}
    (h : scanFrom cs skip s = .ok tokens) : ∀ t ∈ tokens, t.Sincere := by
  induction cs generalizing skip s tokens with
  | nil =>
    rw [scanFrom, ScanState.close] at h
    split at h
    · cases h
      simp [Token.Sincere]
    · cases h
  | cons c cs ih =>
    cases skip with
    | succ skip => exact ih h
    | zero =>
      rw [scanFrom] at h
      obtain ⟨lexeme, hlexeme, h⟩ := bind_eq_ok.1 h
      obtain ⟨s', -, h⟩ := bind_eq_ok.1 h
      obtain ⟨rest, hrest, h⟩ := bind_eq_ok.1 h
      cases h
      intro t ht
      rcases List.mem_append.1 ht with ht | ht
      · refine sincere_token? (fun word hword => ?_) (Option.mem_toList.1 ht)
        exact Lexeme.dot_notMem_of_at (hword ▸ hlexeme)
      · exact ih hrest t ht

/-- No token for a name in a text is a reserved word or has a dot in it. -/
lemma sincere_of_tokenize {text : String} {tokens : List Token} (h : tokenize text = .ok tokens) :
    ∀ t ∈ tokens, t.Sincere := by
  obtain ⟨all, hall, rfl⟩ := tokenize_eq_ok.1 h
  exact fun t ht => sincere_scanFrom hall t ((dropContinuations_sublist .newline all).subset ht)

end TypeNotation
