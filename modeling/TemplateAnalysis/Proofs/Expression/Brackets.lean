import Mathlib.Data.List.Nodup
import TemplateAnalysis.Expression.Pairing
import TemplateAnalysis.Proofs.Expression.Nested
import TemplateAnalysis.Proofs.Expression.Syntax

/-! # Partners of brackets

    What the pairing of brackets says about the brackets of a token sequence:

    * **`pairsFrom_keys_perm`**: every opening bracket gets exactly one
      partner, whatever the closing brackets are;
    * **`partner_of_stands`**: the partner of a bracket around a balanced
      stretch of tokens is the bracket behind that stretch.

    Stretches of tokens are compared without positions: a list of pieces
    `Stands` at an index of a body.
-/

namespace TemplateAnalysis.Expression

/-! ## Every opening bracket has one partner -/

/-- The indices of the opening brackets among tokens that stand from an index
    on. -/
def openingsFrom (index : Nat) : List Token → List Nat
  | [] => []
  | t :: rest =>
    if t.kind = .opening then index :: openingsFrom (index + 1) rest
    else openingsFrom (index + 1) rest

theorem le_of_mem_openingsFrom {index i : Nat} {tokens : List Token}
    (h : i ∈ openingsFrom index tokens) : index ≤ i := by
  induction tokens generalizing index with
  | nil => simp [openingsFrom] at h
  | cons t rest ih =>
    unfold openingsFrom at h
    split at h
    · rcases List.mem_cons.1 h with rfl | h
      · exact Nat.le_refl i
      · have := ih h; omega
    · have := ih h; omega

theorem nodup_openingsFrom (index : Nat) (tokens : List Token) :
    (openingsFrom index tokens).Nodup := by
  induction tokens generalizing index with
  | nil => exact List.nodup_nil
  | cons t rest ih =>
    unfold openingsFrom
    split
    · refine List.nodup_cons.2 ⟨fun h => ?_, ih (index + 1)⟩
      have := le_of_mem_openingsFrom h
      omega
    · exact ih (index + 1)

/-- The brackets that get a partner are those that were open before and those
    that open on the way, each of them once. -/
theorem pairsFrom_keys_perm (index : Nat) (opened : List OpenBracket) (tokens : List Token) :
    ((pairsFrom index opened tokens).map Prod.fst).Perm
      (opened.map (·.index) ++ openingsFrom index tokens) := by
  induction tokens generalizing index opened with
  | nil =>
    have : (Prod.fst ∘ fun bracket : OpenBracket => (bracket.index, index)) = (·.index) := rfl
    simp [pairsFrom, openingsFrom, this]
  | cons t rest ih =>
    unfold pairsFrom openingsFrom
    split
    · -- An opening bracket joins the open ones; its index moves behind them.
      rename_i hk
      rw [if_pos hk]
      refine (ih (index + 1) (⟨index, t.text⟩ :: opened)).trans ?_
      exact List.perm_middle.symm
    · -- A closing bracket splits the open ones into three parts, in order.
      rename_i hk
      have hne : t.kind ≠ .opening := by rw [hk]; decide
      rw [if_neg hne]
      generalize hp : (fun bracket : OpenBracket => bracket.text != openerText t.text) = p
      have split : opened.takeWhile p ++ (opened.dropWhile p).take 1 ++
          (opened.dropWhile p).drop 1 = opened := by
        rw [List.append_assoc, List.take_append_drop, List.takeWhile_append_dropWhile]
      have later := ih (index + 1) ((opened.dropWhile p).drop 1)
      simp only [List.map_append, List.map_map]
      show (List.map (fun bracket : OpenBracket => bracket.index) (opened.takeWhile p) ++
        List.map (fun bracket : OpenBracket => bracket.index) ((opened.dropWhile p).take 1) ++
        _).Perm _
      refine (later.append_left _).trans ?_
      rw [← List.append_assoc, ← List.map_append, ← List.map_append, split]
    · rename_i hk _
      rw [if_neg hk]
      exact ih (index + 1) opened

theorem nodup_keys_pairBrackets (tokens : List Token) :
    ((pairBrackets tokens).map Prod.fst).Nodup :=
  (pairsFrom_keys_perm 0 [] tokens).nodup_iff.2 (nodup_openingsFrom 0 tokens)

/-- A pair that is found among the pairs of a body is the partner. -/
theorem partner_of_mem {body : Body} {i j : Nat} (h : (i, j) ∈ body.pairs) :
    body.partner i = j := by
  have distinct : (body.pairs.map Prod.fst).Nodup :=
    body.pairs_eq ▸ nodup_keys_pairBrackets body.tokens
  unfold Body.partner
  split
  · rename_i pair hp
    have hi : pair.1 = i := by simpa using List.find?_some hp
    have hm : pair ∈ body.pairs := List.mem_of_find?_eq_some hp
    have : pair = (i, j) := List.inj_on_of_nodup_map distinct hm h hi
    rw [this]
  · rename_i hp
    have := List.find?_eq_none.1 hp (i, j) h
    simp at this

/-! ## Stretches of a body -/

/-- A token without its position. -/
def Token.piece (t : Token) : Piece :=
  (t.kind, t.text)

/-- Do these tokens stand in the body from an index on? -/
def Stands (body : Body) (index : Nat) (pieces : List Piece) : Prop :=
  pieces <+: (body.tokens.map Token.piece).drop index

theorem stands_append {body : Body} {index : Nat} {before after : List Piece}
    (h : Stands body index (before ++ after)) :
    Stands body index before ∧ Stands body (index + before.length) after := by
  obtain ⟨rest, hr⟩ := h
  constructor
  · exact ⟨after ++ rest, by rw [← hr, List.append_assoc]⟩
  · refine ⟨rest, ?_⟩
    rw [← List.drop_drop, ← hr, List.append_assoc, List.drop_left]

theorem stands_cons {body : Body} {index : Nat} {piece : Piece} {rest : List Piece}
    (h : Stands body index (piece :: rest)) :
    Stands body index [piece] ∧ Stands body (index + 1) rest :=
  @stands_append body index [piece] rest h

/-- The token at which a piece stands. -/
theorem token_of_stands {body : Body} {index : Nat} {kind : TokenKind} {text : List Char}
    (h : Stands body index [(kind, text)]) :
    ∃ t, body.tokens[index]? = some t ∧ t.kind = kind ∧ t.text = text := by
  obtain ⟨rest, hr⟩ := h
  have hi : ((body.tokens.map Token.piece).drop index)[0]? = some (kind, text) := by
    rw [← hr]; rfl
  rw [List.getElem?_drop, Nat.add_zero, List.getElem?_map] at hi
  obtain ⟨t, ht, hp⟩ := Option.map_eq_some_iff.1 hi
  have hk : t.kind = kind ∧ t.text = text := by simpa [Token.piece] using hp
  exact ⟨t, ht, hk.1, hk.2⟩

/-! ## Balanced stretches -/

/-- Tokens in which every bracket is closed by the one that fits it. -/
inductive Balanced : List Piece → Prop
  | nil : Balanced []
  | piece {kind : TokenKind} {text : List Char} (opening : kind ≠ .opening)
      (closing : kind ≠ .closing) : Balanced [(kind, text)]
  | append {before after : List Piece} :
      Balanced before → Balanced after → Balanced (before ++ after)
  | inBrackets {opener closer : Char} {inner : List Piece} :
      closerOf? opener = some closer → Balanced inner →
        Balanced (inBrackets opener inner closer)

theorem Balanced.cons {kind : TokenKind} {text : List Char} {rest : List Piece}
    (opening : kind ≠ .opening) (closing : kind ≠ .closing) (h : Balanced rest) :
    Balanced ((kind, text) :: rest) :=
  .append (.piece opening closing) h

theorem openerText_of_closerOf? {opener closer : Char} (h : closerOf? opener = some closer) :
    openerText [closer] = [opener] := by
  obtain ⟨bracket, rfl, rfl⟩ := exists_bracket_of_closerOf? h
  cases bracket <;> rfl

/-- The closing bracket that fits the innermost open one ends it alone. -/
theorem pairsFrom_closing {opener closer : Char} (hoc : closerOf? opener = some closer)
    (index start : Nat) (opened : List OpenBracket) (t : Token) (rest : List Token)
    (hk : t.kind = .closing) (ht : t.text = [closer]) :
    pairsFrom index (⟨start, [opener]⟩ :: opened) (t :: rest) =
      (start, index) :: pairsFrom (index + 1) opened rest := by
  have hfit : openerText t.text = [opener] := ht ▸ openerText_of_closerOf? hoc
  rw [pairsFrom.eq_def]
  simp only [hk, hfit]
  rw [List.takeWhile_cons_of_neg (by simp), List.dropWhile_cons_of_neg (by simp)]
  simp

/-- Reading a balanced stretch leaves the open brackets as they were. -/
theorem pairsFrom_balanced {pieces : List Piece} (h : Balanced pieces) :
    ∀ (tokens rest : List Token) (index : Nat) (opened : List OpenBracket),
      tokens.map Token.piece = pieces →
      ∃ found, pairsFrom index opened (tokens ++ rest) =
        found ++ pairsFrom (index + tokens.length) opened rest := by
  induction h with
  | nil =>
    intro tokens rest index opened hp
    rw [List.map_eq_nil_iff] at hp
    subst hp
    exact ⟨[], by simp⟩
  | @piece kind text hopening hclosing =>
    intro tokens rest index opened hp
    obtain ⟨t, rfl, ht⟩ := List.map_eq_singleton_iff.1 hp
    have hk : t.kind = kind := congrArg Prod.fst ht
    refine ⟨[], ?_⟩
    simp only [List.singleton_append, pairsFrom]
    split
    · rename_i h
      exact absurd (hk ▸ h) hopening
    · rename_i h
      exact absurd (hk ▸ h) hclosing
    · rfl
  | append _ _ ihb iha =>
    intro tokens rest index opened hp
    obtain ⟨first, second, rfl, rfl, rfl⟩ := List.map_eq_append_iff.1 hp
    -- The first part leaves open what was open, so the second starts the same way.
    obtain ⟨found₁, h₁⟩ := ihb first (second ++ rest) index opened rfl
    obtain ⟨found₂, h₂⟩ := iha second rest (index + first.length) opened rfl
    refine ⟨found₁ ++ found₂, ?_⟩
    rw [List.append_assoc, h₁, h₂, List.length_append, List.append_assoc, Nat.add_assoc]
  | @inBrackets opener closer inner hoc _ ih =>
    intro tokens rest index opened hp
    obtain ⟨front, back, rfl, hfront, hback⟩ := List.map_eq_append_iff.1 hp
    obtain ⟨o, middle, rfl, ho, hm⟩ := List.map_eq_cons_iff.1 hfront
    obtain ⟨c, rfl, hc⟩ := List.map_eq_singleton_iff.1 hback
    have hok : o.kind = .opening := congrArg Prod.fst ho
    have hot : o.text = [opener] := congrArg Prod.snd ho
    -- Behind what is between them, the opening bracket is on top again.
    obtain ⟨found, hf⟩ := ih middle (c :: rest) (index + 1) (⟨index, o.text⟩ :: opened) hm
    refine ⟨found ++ [(index, index + 1 + middle.length)], ?_⟩
    have hopen : pairsFrom index opened (o :: middle ++ [c] ++ rest) =
        pairsFrom (index + 1) (⟨index, o.text⟩ :: opened) (middle ++ c :: rest) := by
      rw [List.append_assoc, List.cons_append, pairsFrom.eq_def]
      simp only [hok, List.singleton_append]
    rw [hopen, hf, hot, pairsFrom_closing hoc _ _ _ _ _ (congrArg Prod.fst hc)
      (congrArg Prod.snd hc)]
    simp only [List.length_append, List.length_cons, List.length_nil, List.append_assoc,
      List.singleton_append]
    rw [show index + (middle.length + 1 + (0 + 1)) = index + 1 + middle.length + 1 by omega]

/-- Tokens in front of others leave some brackets open. -/
theorem pairsFrom_append (index : Nat) (opened : List OpenBracket) (before : List Token) :
    ∃ found opened', ∀ after, pairsFrom index opened (before ++ after) =
      found ++ pairsFrom (index + before.length) opened' after := by
  induction before generalizing index opened with
  | nil => exact ⟨[], opened, fun after => by simp⟩
  | cons t rest ih =>
    have shift : index + 1 + rest.length = index + (rest.length + 1) := by omega
    simp only [List.cons_append, pairsFrom, List.length_cons]
    split
    · obtain ⟨found, opened', h⟩ := ih (index + 1) (⟨index, t.text⟩ :: opened)
      exact ⟨found, opened', fun after => by rw [h, shift]⟩
    · generalize (fun bracket : OpenBracket => bracket.text != openerText t.text) = p
      obtain ⟨found, opened', h⟩ := ih (index + 1) ((opened.dropWhile p).drop 1)
      refine ⟨(opened.takeWhile p).map (fun bracket => (bracket.index, index)) ++
        ((opened.dropWhile p).take 1).map (fun bracket => (bracket.index, index)) ++ found,
        opened', fun after => ?_⟩
      rw [h, shift, List.append_assoc _ found]
    · obtain ⟨found, opened', h⟩ := ih (index + 1) opened
      exact ⟨found, opened', fun after => by rw [h, shift]⟩

/-- **The partner of a bracket** around a balanced stretch stands right behind
    the stretch. -/
theorem partner_of_stands {body : Body} {index : Nat} {opener closer : Char}
    {inner : List Piece} (hoc : closerOf? opener = some closer) (hb : Balanced inner)
    (h : Stands body index (inBrackets opener inner closer)) :
    body.partner index = index + 1 + inner.length := by
  obtain ⟨rest, hr⟩ := h
  -- The whole sequence is what stands before, the bracketed stretch, and the rest.
  have whole : body.tokens = body.tokens.take index ++ body.tokens.drop index :=
    (List.take_append_drop index body.tokens).symm
  rw [← List.map_drop] at hr
  obtain ⟨stretch, after, hsplit, hs, -⟩ := List.map_eq_append_iff.1 hr.symm
  obtain ⟨front, back, rfl, hfront, hback⟩ := List.map_eq_append_iff.1 hs
  obtain ⟨o, middle, rfl, ho, hm⟩ := List.map_eq_cons_iff.1 hfront
  obtain ⟨c, rfl, hc⟩ := List.map_eq_singleton_iff.1 hback
  have hok : o.kind = .opening := congrArg Prod.fst ho
  have hot : o.text = [opener] := congrArg Prod.snd ho
  have hle : index ≤ body.tokens.length := by
    have : (body.tokens.drop index).length ≠ 0 := by rw [hsplit]; simp
    rw [List.length_drop] at this
    omega
  obtain ⟨found, opened, hbefore⟩ := pairsFrom_append 0 [] (body.tokens.take index)
  obtain ⟨found', hinner⟩ := pairsFrom_balanced hb middle (c :: after) (index + 1)
    (⟨index, o.text⟩ :: opened) hm
  have hpairs : body.pairs = found ++ (found' ++
      (index, index + 1 + middle.length) ::
        pairsFrom (index + 1 + middle.length + 1) opened after) := by
    rw [body.pairs_eq, pairBrackets, whole, hbefore, hsplit, List.length_take_of_le hle,
      Nat.zero_add]
    congr 1
    rw [List.append_assoc, List.cons_append, pairsFrom.eq_def]
    simp only [hok, List.singleton_append]
    rw [hinner, hot, pairsFrom_closing hoc _ _ _ _ _ (congrArg Prod.fst hc)
      (congrArg Prod.snd hc)]
  have hlen : middle.length = inner.length := by rw [← hm, List.length_map]
  refine partner_of_mem ?_
  rw [hpairs, hlen]
  simp

/-! ## Brackets of an expression -/

mutual

theorem Term.balanced : ∀ term : Term, Balanced term.pieces
  | .number number => .piece (by decide) (by decide)
  | .literal literal => .piece (by decide) (by decide)
  | .group inner => .inBrackets rfl (Term.balanced inner)
  | .binary left operator right => by
    have hk : operator.piece.1 ≠ .opening ∧ operator.piece.1 ≠ .closing := by
      cases operator <;> decide
    exact .append (Term.balanced left) (.cons hk.1 hk.2 (Term.balanced right))
  | .choice condition yes no => by
    rw [Term.pieces, List.append_assoc]
    exact .append (Term.balanced condition) (.cons (by decide) (by decide)
      (.append (Term.balanced yes) (.cons (by decide) (by decide) (Term.balanced no))))
  | .fallback first other =>
    .append (Term.balanced first) (.cons (by decide) (by decide) (Term.balanced other))
  | .chain name accessors => .cons (by decide) (by decide) (balanced_accessors accessors)
  | .utility object accessors => .cons (by decide) (by decide) (balanced_accessors accessors)

theorem Accessor.balanced : ∀ accessor : Accessor, Balanced accessor.pieces
  | .member safe name => by
    cases safe <;>
      exact .cons (by decide) (by decide) (.cons (by decide) (by decide) .nil)
  | .call safe name arguments => by
    have ha := balanced_arguments arguments
    cases safe <;>
      exact .cons (by decide) (by decide) (.cons (by decide) (by decide) (.inBrackets rfl ha))
  | .index index => .inBrackets rfl (Term.balanced index)
  | .item quote key => .inBrackets rfl (.piece (by decide) (by decide))
  | .selection condition =>
    .cons (by decide) (by decide) (.inBrackets rfl (Term.balanced condition))
  | .projection body => .cons (by decide) (by decide) (.inBrackets rfl (Term.balanced body))

theorem balanced_accessors : ∀ accessors : List Accessor, Balanced (accessorPieces accessors)
  | [] => .nil
  | accessor :: rest => .append (Accessor.balanced accessor) (balanced_accessors rest)

theorem balanced_arguments : ∀ arguments : List Term, Balanced (argumentPieces arguments)
  | [] => .nil
  | argument :: rest => .append (Term.balanced argument) (balanced_moreArguments rest)

theorem balanced_moreArguments : ∀ arguments : List Term,
    Balanced (moreArgumentPieces arguments)
  | [] => .nil
  | argument :: rest => by
    rw [moreArgumentPieces, List.cons_append]
    exact .cons (by decide) (by decide)
      (.append (Term.balanced argument) (balanced_moreArguments rest))

end

/-- An expression has a token. -/
theorem Term.pieces_ne_nil (term : Term) : term.pieces ≠ [] := by
  cases term <;> simp [Term.pieces, inBrackets]

theorem argumentPieces_eq_nil_iff (arguments : List Term) :
    argumentPieces arguments = [] ↔ arguments = [] := by
  cases arguments with
  | nil => simp [argumentPieces]
  | cons argument rest => simp [argumentPieces, argument.pieces_ne_nil]

end TemplateAnalysis.Expression
