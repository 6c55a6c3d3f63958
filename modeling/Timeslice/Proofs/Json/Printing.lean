import Timeslice.Json.Parser
import Timeslice.Proofs.Json.Lexing

/-! # Printed values

A value whose numbers are all integers is parsed back from its text. The text of such a value is
lexed to tokens that the layout has no part in, and from those the parser builds the value again.
-/

namespace Timeslice.Json

/-! ## Layouts and values -/

structure Layout.Blank (layout : Layout) : Prop where
  lineBreak : ∀ depth, ∀ c ∈ layout.lineBreak depth, Lexer.isBlank c
  afterColon : ∀ c ∈ layout.afterColon, Lexer.isBlank c

theorem Layout.blank_compact : Layout.compact.Blank where
  lineBreak _ _ member := absurd member List.not_mem_nil
  afterColon _ member := absurd member List.not_mem_nil

theorem Layout.blank_pretty : Layout.pretty.Blank := by
  refine ⟨fun depth c member => ?_, fun c member => List.mem_singleton.1 member ▸ by decide⟩
  rcases List.mem_cons.1 member with rfl | member
  · decide
  · exact List.eq_of_mem_replicate member ▸ by decide

/-- A value without fractions, exponents and negative zeros. -/
inductive Integral : Json → Prop where
  | null : Integral .null
  | bool (value : Bool) : Integral (.bool value)
  | int (value : Int) : Integral (.int value)
  | string (value : Option String) : Integral (.string value)
  | array {items : List Json} (all : ∀ item ∈ items, Integral item) : Integral (.array items)
  | object {members : List (Option String × Json)}
      (all : ∀ member ∈ members, Integral member.2) : Integral (.object members)

mutual

def tokens : Json → List Token
  | .null => [.null]
  | .bool value => [.bool value]
  | .int value => [.int value]
  | .real literal => [.real literal]
  | .string value => [.string value]
  | .array [] => [.openArray, .closeArray]
  | .array (item :: items) => .openArray :: (tokens item ++ itemTokens items)
  | .object [] => [.openObject, .closeObject]
  | .object ((name, value) :: members) =>
    .openObject :: .string name :: .colon :: (tokens value ++ memberTokens members)

def itemTokens : List Json → List Token
  | [] => [.closeArray]
  | item :: items => .comma :: (tokens item ++ itemTokens items)

def memberTokens : List (Option String × Json) → List Token
  | [] => [.closeObject]
  | (name, value) :: members =>
    .comma :: .string name :: .colon :: (tokens value ++ memberTokens members)

end

/-! ## From text to tokens -/

section Lexes

variable {layout : Layout} {depth : Nat} {held : List Token} {rest : List Char}

/-- The text of the value is lexed to its tokens wherever it stands. -/
def Lexes (layout : Layout) (value : Json) : Prop :=
  ∀ depth held rest, Lexer.Delimits rest →
    Token.after held (write layout depth value rest) =
      Token.after ((tokens value).reverse ++ held) rest

theorem delimits_writeItems (blank : layout.Blank) (items : List Json) :
    Lexer.Delimits (writeItems layout depth items rest) := by
  cases items with
  | nil =>
      rw [writeItems]
      exact Token.delimits_blanks (blank.lineBreak depth) fun c hd => by cases hd; decide
  | cons item items =>
      rw [writeItems]
      exact fun c hd => by cases hd; decide

theorem delimits_writeMembers (blank : layout.Blank) (members : List (Option String × Json)) :
    Lexer.Delimits (writeMembers layout depth members rest) := by
  cases members with
  | nil =>
      rw [writeMembers]
      exact Token.delimits_blanks (blank.lineBreak depth) fun c hd => by cases hd; decide
  | cons member members =>
      rw [writeMembers]
      exact fun c hd => by cases hd; decide

/-- An item after its line break, and what comes after it. -/
theorem after_item (blank : layout.Blank) {item : Json} (lexes : Lexes layout item)
    (delimits : Lexer.Delimits rest) :
    Token.after held (layout.lineBreak depth ++ write layout depth item rest) =
      Token.after ((tokens item).reverse ++ held) rest := by
  rw [Token.after_blanks (blank.lineBreak depth), lexes depth held rest delimits]

/-- A member after its line break, and what comes after it. -/
theorem after_member (blank : layout.Blank) (name : Option String) {value : Json}
    (lexes : Lexes layout value) (delimits : Lexer.Delimits rest) :
    Token.after held (layout.lineBreak depth ++ writeString layout name
        (':' :: (layout.afterColon ++ write layout depth value rest))) =
      Token.after ((tokens value).reverse ++ .colon :: .string name :: held) rest := by
  rw [Token.after_blanks (blank.lineBreak depth), Token.after_string, Token.after_cons rfl,
    Token.after_blanks blank.afterColon, lexes depth _ rest delimits]

theorem after_writeItems (blank : layout.Blank) (items : List Json)
    (lexes : ∀ item ∈ items, Lexes layout item) :
    Token.after held (writeItems layout depth items rest) =
      Token.after ((itemTokens items).reverse ++ held) rest := by
  induction items generalizing held with
  | nil =>
      rw [writeItems, Token.after_blanks (blank.lineBreak depth), Token.after_cons rfl]
      rfl
  | cons item items ih =>
      rw [writeItems, Token.after_cons rfl, after_item blank (lexes item List.mem_cons_self)
        (delimits_writeItems blank items), ih fun i hi => lexes i (List.mem_cons_of_mem item hi)]
      simp only [itemTokens, List.reverse_cons, List.reverse_append, List.append_assoc,
        List.cons_append, List.nil_append]

theorem after_writeMembers (blank : layout.Blank) (members : List (Option String × Json))
    (lexes : ∀ member ∈ members, Lexes layout member.2) :
    Token.after held (writeMembers layout depth members rest) =
      Token.after ((memberTokens members).reverse ++ held) rest := by
  induction members generalizing held with
  | nil =>
      rw [writeMembers, Token.after_blanks (blank.lineBreak depth), Token.after_cons rfl]
      rfl
  | cons member members ih =>
      rw [writeMembers, Token.after_cons rfl,
        after_member blank member.1 (lexes member List.mem_cons_self)
          (delimits_writeMembers blank members),
        ih fun m hm => lexes m (List.mem_cons_of_mem member hm)]
      simp only [memberTokens, List.reverse_cons, List.reverse_append, List.append_assoc,
        List.cons_append, List.nil_append]

theorem Integral.lexes (blank : layout.Blank) {value : Json} (integral : Integral value) :
    Lexes layout value := by
  induction integral with
  | null =>
      intro depth held rest delimits
      rw [write, Token.after_null delimits]
      rfl
  | bool value =>
      intro depth held rest delimits
      cases value
      · rw [write, Token.after_false delimits]
        rfl
      · rw [write, Token.after_true delimits]
        rfl
  | int value =>
      intro depth held rest delimits
      rw [write, Token.after_int value delimits]
      rfl
  | string value =>
      intro depth held rest _
      rw [write, Token.after_string]
      rfl
  | @array items _ ih =>
      intro depth held rest _
      cases items with
      | nil =>
          rw [write, Token.after_cons rfl, Token.after_cons rfl]
          rfl
      | cons item items =>
          rw [write, Token.after_cons rfl, after_item blank (ih item List.mem_cons_self)
              (delimits_writeItems blank items),
            after_writeItems blank items fun i hi => ih i (List.mem_cons_of_mem item hi)]
          simp only [tokens, List.reverse_cons, List.reverse_append, List.append_assoc,
            List.cons_append, List.nil_append]
  | @object members _ ih =>
      intro depth held rest _
      cases members with
      | nil =>
          rw [write, Token.after_cons rfl, Token.after_cons rfl]
          rfl
      | cons member members =>
          rw [write, Token.after_cons rfl,
            after_member blank member.1 (ih member List.mem_cons_self)
              (delimits_writeMembers blank members),
            after_writeMembers blank members fun m hm => ih m (List.mem_cons_of_mem member hm)]
          simp only [tokens, List.reverse_cons, List.reverse_append, List.append_assoc,
            List.cons_append, List.nil_append]

theorem Integral.ofText?_render (blank : layout.Blank) {value : Json} (integral : Integral value) :
    Token.ofText? (render layout value) = some (tokens value) := by
  rw [Token.ofText?_eq, render, String.toList_ofList,
    integral.lexes blank 0 [] [] fun c hd => by cases hd]
  show some ((tokens value).reverse ++ []).reverse = _
  rw [List.append_nil, List.reverse_reverse]

end Lexes

/-! ## From tokens to values -/

/-- The parser builds the value from its tokens wherever a value may stand. -/
def Parses (value : Json) : Prop :=
  ∀ frames,
    (tokens value).foldlM Parser.step ⟨frames, .value⟩ = some (Parser.finish value frames)

section Parses

variable {frames : List Frame}

/-- A first item is read as a value is read in an array that has no items yet: no value begins
with the end of an array. -/
theorem step_firstItem {token : Token} (opens : token ≠ .closeArray) :
    Parser.step ⟨frames, .firstItem⟩ token =
      Parser.step ⟨.array [] :: frames, .value⟩ token := by
  cases token <;> first | rfl | exact absurd rfl opens

theorem exists_tokens_eq_cons (value : Json) :
    ∃ first rest, tokens value = first :: rest ∧ first ≠ .closeArray := by
  cases value with
  | array items =>
      cases items <;> exact ⟨.openArray, _, rfl, by decide⟩
  | object members =>
      cases members <;> exact ⟨.openObject, _, rfl, by decide⟩
  | _ => exact ⟨_, _, rfl, Token.noConfusion⟩

theorem parse_firstItem {item : Json} (parses : Parses item) :
    (tokens item).foldlM Parser.step ⟨frames, .firstItem⟩ = some ⟨frames, .moreItems [item]⟩ := by
  obtain ⟨first, rest, shape, opens⟩ := exists_tokens_eq_cons item
  have built := parses (.array [] :: frames)
  rw [shape, List.foldlM_cons] at built ⊢
  rw [step_firstItem opens, built]
  rfl

theorem parse_itemTokens (items : List Json) (parses : ∀ item ∈ items, Parses item)
    (before : List Json) :
    (itemTokens items).foldlM Parser.step ⟨frames, .moreItems before⟩ =
      some (Parser.finish (.array (before.reverse ++ items)) frames) := by
  induction items generalizing before with
  | nil =>
      rw [List.append_nil]
      rfl
  | cons item items ih =>
      have built := parses item List.mem_cons_self (.array before :: frames)
      have others := ih (fun i hi => parses i (List.mem_cons_of_mem item hi)) (item :: before)
      rw [itemTokens, List.foldlM_cons]
      show ((tokens item ++ itemTokens items).foldlM Parser.step
        ⟨.array before :: frames, .value⟩) = _
      rw [List.foldlM_append, built]
      refine others.trans ?_
      rw [List.reverse_cons, List.append_assoc]
      rfl

theorem parse_memberTokens (members : List (Option String × Json))
    (parses : ∀ member ∈ members, Parses member.2) (before : List (Option String × Json)) :
    (memberTokens members).foldlM Parser.step ⟨frames, .moreMembers before⟩ =
      some (Parser.finish (.object (before.reverse ++ members)) frames) := by
  induction members generalizing before with
  | nil =>
      rw [List.append_nil]
      rfl
  | cons member members ih =>
      have built := parses member List.mem_cons_self (.object before member.1 :: frames)
      have others := ih (fun m hm => parses m (List.mem_cons_of_mem member hm)) (member :: before)
      rw [memberTokens, List.foldlM_cons]
      show ((tokens member.2 ++ memberTokens members).foldlM Parser.step
        ⟨.object before member.1 :: frames, .value⟩) = _
      rw [List.foldlM_append, built]
      refine others.trans ?_
      rw [List.reverse_cons, List.append_assoc]
      rfl

theorem Integral.parses {value : Json} (integral : Integral value) : Parses value := by
  induction integral with
  | null | bool _ | int _ | string _ => exact fun frames => rfl
  | @array items _ ih =>
      intro frames
      cases items with
      | nil => rfl
      | cons item items =>
          rw [tokens, List.foldlM_cons]
          show ((tokens item ++ itemTokens items).foldlM Parser.step ⟨frames, .firstItem⟩) = _
          rw [List.foldlM_append, parse_firstItem (ih item List.mem_cons_self)]
          exact parse_itemTokens items (fun i hi => ih i (List.mem_cons_of_mem item hi)) [item]
  | @object members _ ih =>
      intro frames
      cases members with
      | nil => rfl
      | cons member members =>
          have first := ih member List.mem_cons_self (.object [] member.1 :: frames)
          rw [tokens, List.foldlM_cons]
          show ((tokens member.2 ++ memberTokens members).foldlM Parser.step
            ⟨.object [] member.1 :: frames, .value⟩) = _
          rw [List.foldlM_append, first]
          exact parse_memberTokens members (fun m hm => ih m (List.mem_cons_of_mem member hm))
            [member]

end Parses

/-! ## From text to values -/

theorem parse?_of_tokens {text : String} {value : Json} (integral : Integral value)
    (lexed : Token.ofText? text = some (tokens value)) : parse? text = some value := by
  rw [parse?, lexed]
  show ((tokens value).foldlM Parser.step Parser.start).bind _ = _
  rw [show Parser.start = ⟨[], .value⟩ from rfl, integral.parses []]
  rfl

/-- A printed value is parsed back, in every layout that adds only blanks. -/
theorem Integral.parse?_render {layout : Layout} (blank : layout.Blank) {value : Json}
    (integral : Integral value) : parse? (render layout value) = some value :=
  parse?_of_tokens integral (integral.ofText?_render blank)

/-- The same holds of a printed line. -/
theorem Integral.parse?_render_line {layout : Layout} (blank : layout.Blank) {value : Json}
    (integral : Integral value) : parse? (render layout value ++ "\n") = some value :=
  parse?_of_tokens integral (Token.ofText?_line (integral.ofText?_render blank))

end Timeslice.Json
