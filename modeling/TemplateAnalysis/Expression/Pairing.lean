import TemplateAnalysis.Expression.Token

/-! # Pairing of brackets

    Every opening bracket of a token sequence gets a partner: the index of the
    token at which it ends. A closing bracket that does not fit ends all open
    brackets of other kinds above the nearest one of its own, so several
    brackets can share a partner. A bracket that nothing ends lasts to the end
    of the sequence.
-/

namespace TemplateAnalysis.Expression

/-- An opening bracket that is still open: the index of its token and the
    bracket itself. -/
structure OpenBracket where
  index : Nat
  text : List Char
  deriving DecidableEq, Repr

/-- The opening bracket that a closing token closes. -/
def openerText (closer : List Char) : List Char :=
  closer.filterMap openerOf?

/-- Partners of the open brackets, innermost first, and of the brackets in the
    tokens that stand from `index` on. Each pair is an opening index and the
    index where it ends. -/
def pairsFrom (index : Nat) (opened : List OpenBracket) : List Token → List (Nat × Nat)
  | [] => opened.map fun bracket => (bracket.index, index)
  | t :: rest =>
    match t.kind with
    | .opening => pairsFrom (index + 1) (⟨index, t.text⟩ :: opened) rest
    | .closing =>
      let unfit := opened.takeWhile fun bracket => bracket.text != openerText t.text
      let fitting := opened.dropWhile fun bracket => bracket.text != openerText t.text
      unfit.map (fun bracket => (bracket.index, index)) ++
        (fitting.take 1).map (fun bracket => (bracket.index, index)) ++
        pairsFrom (index + 1) (fitting.drop 1) rest
    | _ => pairsFrom (index + 1) opened rest

/-- The partner of every opening bracket of a token sequence. The closing tokens of
    a text are brackets. One that is none, for which a table of the brackets has no
    entry and a look-up in it fails, is here a bracket that fits no other: it ends
    all that are open. -/
def pairBrackets (tokens : List Token) : List (Nat × Nat) :=
  pairsFrom 0 [] tokens

/-- A bracket ends behind the place where it opens. -/
theorem lt_of_mem_pairsFrom {index : Nat} {opened : List OpenBracket} {tokens : List Token}
    (before : ∀ bracket ∈ opened, bracket.index < index) {pair : Nat × Nat}
    (h : pair ∈ pairsFrom index opened tokens) : pair.1 < pair.2 := by
  induction tokens generalizing index opened with
  | nil =>
    obtain ⟨bracket, hb, rfl⟩ := List.mem_map.1 h
    exact before bracket hb
  | cons t rest ih =>
    have older : ∀ bracket ∈ opened, bracket.index < index + 1 :=
      fun bracket hb => Nat.lt_succ_of_lt (before bracket hb)
    simp only [pairsFrom] at h
    split at h
    · refine ih (fun bracket hb => ?_) h
      rcases List.mem_cons.1 hb with rfl | hb
      · exact Nat.lt_succ_self index
      · exact older bracket hb
    · rcases List.mem_append.1 h with h | h
      · rcases List.mem_append.1 h with h | h
        · obtain ⟨bracket, hb, rfl⟩ := List.mem_map.1 h
          exact before bracket ((List.takeWhile_sublist _).mem hb)
        · obtain ⟨bracket, hb, rfl⟩ := List.mem_map.1 h
          exact before bracket ((List.dropWhile_sublist _).mem (List.mem_of_mem_take hb))
      · exact ih (fun bracket hb =>
          older bracket ((List.dropWhile_sublist _).mem (List.mem_of_mem_drop hb))) h
    · exact ih older h

/-! ## Bodies -/

/-- An expression body, cut into tokens and with its brackets paired. -/
structure Body where
  tokens : List Token
  pairs : List (Nat × Nat)
  pairs_eq : pairs = pairBrackets tokens

/-- Read an expression body. -/
def Body.ofText (text : List Char) : Body :=
  ⟨tokenize text, _, rfl⟩

/-- Where the bracket at an index ends. Every opening bracket has a partner;
    any other token counts as lasting to the end of the body. -/
def Body.partner (body : Body) (index : Nat) : Nat :=
  match body.pairs.find? fun pair => pair.1 == index with
  | some pair => pair.2
  | none => max body.tokens.length (index + 1)

theorem Body.lt_partner (body : Body) (index : Nat) : index < body.partner index := by
  unfold Body.partner
  split
  · rename_i pair h
    have hi : pair.1 = index := by simpa using List.find?_some h
    have hm : pair ∈ pairBrackets body.tokens := body.pairs_eq ▸ List.mem_of_find?_eq_some h
    exact hi ▸ lt_of_mem_pairsFrom (by simp) hm
  · omega

/-- Does a token of this kind stand at `index`, before `stop`? -/
def Body.hasKind (body : Body) (index stop : Nat) (kind : TokenKind) : Bool :=
  index < stop && body.tokens[index]?.any fun t => t.kind = kind

/-- Does this opening bracket stand at `index`, before `stop`? -/
def Body.opensWith (body : Body) (index stop : Nat) (bracket : Char) : Bool :=
  index < stop && body.tokens[index]?.any fun t => t.kind = .opening && t.text == [bracket]

/-- The text of the token at an index. -/
def Body.textAt (body : Body) (index : Nat) : List Char :=
  (body.tokens[index]?.map Token.text).getD []

end TemplateAnalysis.Expression
