import Ambient.Proofs.TypeExpr.Lexeme

/-!
# The grammar of type expressions

The grammar as a relation: `Derives r cs es rest` says that the rule `r` derives the text between
`cs` and its suffix `rest`, and that the derivation builds the expressions `es`.  The text behind is
kept in the judgment because a name is as long as it can be, which shows only with what follows it.
A text may have several derivations, and these may build different expressions.
-/

namespace Ambient.TypeExpr

open Ambient.Text

/-- The rules of the grammar. -/
inductive Rule where
  /-- A whole type. -/
  | top
  /-- Operands with bars between them. -/
  | union
  /-- The operands of a union behind its first bar. -/
  | others
  /-- An operand with at most one mark. -/
  | operand
  /-- A primary expression with array suffixes. -/
  | suffixed
  | primary
  /-- The arguments of a generic type. -/
  | arguments
  /-- The fields of a record. -/
  | fields
  | field
  /-- The parameters of a function, if any. -/
  | params
  /-- Whole types with commas between them. -/
  | tops
  /-- A colon and a union, or nothing. -/
  | typing

/-- The rule derives the text up to the rest, and the derivation builds the expressions. -/
inductive Derives : Rule → List Char → List TypeExpr → List Char → Prop
  | variadic {cs c₁ c₂ : List Char} {e : TypeExpr} (hdots : Token ['.', '.', '.'] cs c₁)
      (h : Derives .union c₁ [e] c₂) : Derives .top cs [.variadic (some e)] c₂
  | variadicAll {cs c₁ : List Char} (hdots : Token ['.', '.', '.'] cs c₁) :
      Derives .top cs [.variadic none] c₁
  | optional {cs c₁ c₂ : List Char} {e : TypeExpr} (h : Derives .union cs [e] c₁)
      (hmark : Token ['='] c₁ c₂) : Derives .top cs [.optional e] c₂
  | required {cs c₁ : List Char} {e : TypeExpr} (h : Derives .union cs [e] c₁) :
      Derives .top cs [e] c₁
  | single {cs c₁ : List Char} {e : TypeExpr} (h : Derives .operand cs [e] c₁) :
      Derives .union cs [e] c₁
  | several {cs c₁ c₂ c₃ : List Char} {e : TypeExpr} {es : List TypeExpr}
      (h : Derives .operand cs [e] c₁) (hbar : Token ['|'] c₁ c₂) (hs : Derives .others c₂ es c₃) :
      Derives .union cs [.union (e :: es)] c₃
  | oneOther {cs c₁ : List Char} {e : TypeExpr} (h : Derives .operand cs [e] c₁) :
      Derives .others cs [e] c₁
  | moreOthers {cs c₁ c₂ c₃ : List Char} {e : TypeExpr} {es : List TypeExpr}
      (hs : Derives .others cs es c₁) (hbar : Token ['|'] c₁ c₂) (h : Derives .operand c₂ [e] c₃) :
      Derives .others cs (es ++ [e]) c₃
  | nullableBefore {cs c₁ c₂ : List Char} {e : TypeExpr} (hmark : Token ['?'] cs c₁)
      (h : Derives .suffixed c₁ [e] c₂) : Derives .operand cs [.nullable e true] c₂
  | nonNullableBefore {cs c₁ c₂ : List Char} {e : TypeExpr} (hmark : Token ['!'] cs c₁)
      (h : Derives .suffixed c₁ [e] c₂) : Derives .operand cs [.nonNullable e true] c₂
  | nullableAfter {cs c₁ c₂ : List Char} {e : TypeExpr} (h : Derives .suffixed cs [e] c₁)
      (hmark : Token ['?'] c₁ c₂) : Derives .operand cs [.nullable e false] c₂
  | nonNullableAfter {cs c₁ c₂ : List Char} {e : TypeExpr} (h : Derives .suffixed cs [e] c₁)
      (hmark : Token ['!'] c₁ c₂) : Derives .operand cs [.nonNullable e false] c₂
  | unmarked {cs c₁ : List Char} {e : TypeExpr} (h : Derives .suffixed cs [e] c₁) :
      Derives .operand cs [e] c₁
  | unsuffixed {cs c₁ : List Char} {e : TypeExpr} (h : Derives .primary cs [e] c₁) :
      Derives .suffixed cs [e] c₁
  | array {cs c₁ c₂ c₃ : List Char} {e : TypeExpr} (h : Derives .suffixed cs [e] c₁)
      (hopen : Token ['['] c₁ c₂) (hclose : Token [']'] c₂ c₃) :
      Derives .suffixed cs [.apply (.name "Array") [e]] c₃
  | name {cs w c₁ : List Char} (h : NameToken w cs c₁) :
      Derives .primary cs [.name (String.ofList w)] c₁
  | dottedApply {cs w c₁ c₂ c₃ c₄ : List Char} {es : List TypeExpr} (h : NameToken w cs c₁)
      (hopen : Token ['.', '<'] c₁ c₂) (hs : Derives .arguments c₂ es c₃)
      (hclose : Token ['>'] c₃ c₄) : Derives .primary cs [.apply (.name (String.ofList w)) es] c₄
  | apply {cs w c₁ c₂ c₃ c₄ : List Char} {es : List TypeExpr} (h : NameToken w cs c₁)
      (hopen : Token ['<'] c₁ c₂) (hs : Derives .arguments c₂ es c₃)
      (hclose : Token ['>'] c₃ c₄) : Derives .primary cs [.apply (.name (String.ofList w)) es] c₄
  | group {cs c₁ c₂ c₃ : List Char} {e : TypeExpr} (hopen : Token ['('] cs c₁)
      (h : Derives .union c₁ [e] c₂) (hclose : Token [')'] c₂ c₃) : Derives .primary cs [e] c₃
  | all {cs c₁ : List Char} (h : Token ['*'] cs c₁) : Derives .primary cs [.all] c₁
  | unknown {cs c₁ : List Char} (h : Token ['?'] cs c₁) : Derives .primary cs [.unknown] c₁
  | emptyRecord {cs c₁ c₂ : List Char} (hopen : Token ['{'] cs c₁)
      (hclose : Token ['}'] c₁ c₂) : Derives .primary cs [.record []] c₂
  | record {cs c₁ c₂ c₃ : List Char} {fs : List TypeExpr} (hopen : Token ['{'] cs c₁)
      (hs : Derives .fields c₁ fs c₂) (hclose : Token ['}'] c₂ c₃) :
      Derives .primary cs [.record fs] c₃
  | function {cs c₁ c₂ c₃ c₄ c₅ : List Char} {ps rs : List TypeExpr}
      (hword : Token "function".toList cs c₁) (hopen : Token ['('] c₁ c₂)
      (hps : Derives .params c₂ ps c₃) (hclose : Token [')'] c₃ c₄)
      (hrs : Derives .typing c₄ rs c₅) : Derives .primary cs [.function ps rs.head?] c₅
  | oneArgument {cs c₁ : List Char} {e : TypeExpr} (h : Derives .union cs [e] c₁) :
      Derives .arguments cs [e] c₁
  | moreArguments {cs c₁ c₂ c₃ : List Char} {e : TypeExpr} {es : List TypeExpr}
      (h : Derives .union cs [e] c₁) (hcomma : Token [','] c₁ c₂)
      (hs : Derives .arguments c₂ es c₃) : Derives .arguments cs (e :: es) c₃
  | oneField {cs c₁ : List Char} {f : TypeExpr} (h : Derives .field cs [f] c₁) :
      Derives .fields cs [f] c₁
  | moreFields {cs c₁ c₂ c₃ : List Char} {f : TypeExpr} {fs : List TypeExpr}
      (h : Derives .field cs [f] c₁) (hcomma : Token [','] c₁ c₂) (hs : Derives .fields c₂ fs c₃) :
      Derives .fields cs (f :: fs) c₃
  | field {cs w c₁ c₂ : List Char} {vs : List TypeExpr} (h : KeyToken w cs c₁)
      (hv : Derives .typing c₁ vs c₂) :
      Derives .field cs [.field (String.ofList (trimEnds isQuote w)) vs.head?] c₂
  | noParams {cs : List Char} : Derives .params cs [] cs
  | params {cs c₁ : List Char} {es : List TypeExpr} (h : Derives .tops cs es c₁) :
      Derives .params cs es c₁
  | oneTop {cs c₁ : List Char} {e : TypeExpr} (h : Derives .top cs [e] c₁) : Derives .tops cs [e] c₁
  | moreTops {cs c₁ c₂ c₃ : List Char} {e : TypeExpr} {es : List TypeExpr}
      (h : Derives .top cs [e] c₁) (hcomma : Token [','] c₁ c₂) (hs : Derives .tops c₂ es c₃) :
      Derives .tops cs (e :: es) c₃
  | untyped {cs : List Char} : Derives .typing cs [] cs
  | typed {cs c₁ c₂ : List Char} {e : TypeExpr} (hcolon : Token [':'] cs c₁)
      (h : Derives .union c₁ [e] c₂) : Derives .typing cs [e] c₂

/-- The whole text is a type, and a derivation of it builds the expression. -/
def Denotes (cs : List Char) (e : TypeExpr) : Prop :=
  ∃ rest, Derives .top cs [e] rest ∧ ∀ c ∈ rest, isGap c = true

theorem Token.length_le {t cs rest : List Char} (h : Token t cs rest) :
    t.length + rest.length ≤ cs.length := by
  obtain ⟨gap, -, rfl⟩ := h
  simp only [List.length_append]
  omega

theorem NameToken.length_lt {w cs rest : List Char} (h : NameToken w cs rest) :
    rest.length < cs.length := by
  obtain ⟨gap, mid, -, rfl, rfl, hname, -⟩ := h
  obtain ⟨c, v, rfl, -⟩ := hname.exists_continues
  simp only [List.length_append, List.length_cons]
  omega

theorem KeyToken.length_lt {w cs rest : List Char} (h : KeyToken w cs rest) :
    rest.length < cs.length := by
  obtain ⟨gap, mid, -, rfl, hkey⟩ := h
  rcases hkey with ⟨rfl, ⟨c, v, rfl, -⟩, -⟩ | ⟨rfl, ⟨u, k, rfl, -⟩, -⟩
  all_goals
    simp only [List.length_append, List.length_cons]
    omega

/-- A derivation leaves a part of the text. -/
theorem Derives.length_le {r : Rule} {cs : List Char} {es : List TypeExpr} {rest : List Char}
    (h : Derives r cs es rest) : rest.length ≤ cs.length := by
  induction h with
  | _ => grind [→ Token.length_le, → NameToken.length_lt, → KeyToken.length_lt]

end Ambient.TypeExpr
