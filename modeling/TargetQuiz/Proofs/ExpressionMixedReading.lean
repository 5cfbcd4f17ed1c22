import Mathlib.Data.List.Infix
import Mathlib.Tactic.NormNum
import TargetQuiz.Proofs.ExpressionFusion
import TargetQuiz.Proofs.ExpressionMixed

/-! The expansion of a mixed number has no parentheses around it, so an operator next to it may be
applied to a part of it. It makes no difference where the mixed number is an addend. -/
namespace TargetQuiz.Expression

def quotient (num den : List Char) : Option ℚ :=
  Operator.div.exact (Numeral.value num) (Numeral.value den)

inductive Item.Value : Item → Option ℚ → Prop
  | number (digits : List Char) : Value (.number digits) (some (Numeral.value digits))
  | ratio (num den : List Char) : Value (.lexeme (.ratio num den)) (quotient num den)
  | mixed (whole num den : List Char) :
      Value (.mixed whole num den) ((quotient num den).map ((Numeral.value whole : ℚ) + ·))

/-- The standard reading of items: every operand, also a mixed number, has one value, which the
operators next to it are applied to. -/
inductive StandardValue : Rank → List Item → Option ℚ → Prop
  | operand {i : Item} {x : Option ℚ} (h : i.Value x) : StandardValue .factor [i] x
  | negative {i : Item} {x : Option ℚ} (h : i.Value x) :
      StandardValue .factor [.mark '-', i] (x.map (-·))
  | group {items : List Item} {x : Option ℚ} (h : StandardValue .sum items x) :
      StandardValue .factor (.mark '(' :: (items ++ [.mark ')'])) x
  | negated {items : List Item} {x : Option ℚ} (h : StandardValue .sum items x) :
      StandardValue .factor (.mark '-' :: .mark '(' :: (items ++ [.mark ')'])) (x.map (-·))
  | factor {items : List Item} {x : Option ℚ} (h : StandardValue .factor items x) :
      StandardValue .product items x
  | product {items : List Item} {x : Option ℚ} (h : StandardValue .product items x) :
      StandardValue .sum items x
  | binary (op : Operator) {left right : List Item} {x y : Option ℚ}
      (hl : StandardValue (.ofOperator op) left x)
      (hr : StandardValue (Rank.ofOperator op).tighter right y) :
      StandardValue (.ofOperator op) (left ++ .mark op.symbol :: right)
        (x.bind fun a => y.bind fun b => op.exact a b)

def joined : List Item → List Item
  | .lexeme (.number num) :: .lexeme (.mark '/') :: .lexeme (.number den) :: rest =>
    .lexeme (.ratio num den) :: joined rest
  | i :: rest => i :: joined rest
  | [] => []

/-- Mixed numbers stand directly behind no sign but plus and directly before none but plus and
minus. -/
structure MixedAdded (items : List Item) : Prop where
  left : ∀ (op : Operator) (whole num den : List Char),
    [.mark op.symbol, .mixed whole num den] <:+: items → op = .add
  right : ∀ (op : Operator) (whole num den : List Char),
    [.mixed whole num den, .mark op.symbol] <:+: items → op = .add ∨ op = .sub

theorem MixedAdded.mono {items items' : List Item} (h : MixedAdded items)
    (hpart : items' <:+: items) : MixedAdded items' where
  left op whole num den hpair := h.left op whole num den (hpair.trans hpart)
  right op whole num den hpair := h.right op whole num den (hpair.trans hpart)

namespace Item

def lexemes : Item → List Lexeme
  | lexeme l => [l]
  | mixed whole num den => [.number whole, .mark '+', .mark '(', .ratio num den, .mark ')']

def plainLexemes : Item → List Lexeme
  | lexeme l => [l]
  | mixed whole num den =>
    [.number whole, .mark '+', .mark '(', .number num, .mark '/', .number den, .mark ')']

end Item

/-- Every run of digits in the lexemes denotes a word. -/
def Fits (ls : List Lexeme) : Prop :=
  ∀ run ∈ ls.flatMap Lexeme.runs, ∃ n, wordOfDigits run = .ok n

theorem Fits.mono {ls ms : List Lexeme} (h : Fits ms) (hpart : ls <:+: ms) : Fits ls := by
  obtain ⟨before, after, rfl⟩ := hpart
  intro run hrun
  exact h run (by simp [hrun])

theorem Denotes.fits {negative : Bool} {l : Lexeme} {o : Operand} (h : Denotes negative l o) :
    Fits [l] := by
  cases h with
  | number hn => simpa [Fits, Lexeme.runs] using ⟨_, hn⟩
  | ratio hn hd => simpa [Fits, Lexeme.runs] using ⟨⟨_, hn⟩, _, hd⟩

theorem Fits.append {ls ms : List Lexeme} (hl : Fits ls) (hm : Fits ms) : Fits (ls ++ ms) := by
  intro run hrun
  rw [List.flatMap_append, List.mem_append] at hrun
  exact hrun.elim (hl run) (hm run)

theorem Scanned.fits {fresh : Bool} {ls : List Lexeme} {tokens : List Token}
    (h : Scanned fresh ls tokens) : Fits ls := by
  induction h with
  | nil => simp [Fits]
  | literal _ h _ ih => exact h.fits.append ih
  | opening _ _ ih => exact ih
  | closing _ _ ih => exact ih
  | operator _ _ _ ih => exact ih
  | negative h _ ih => exact h.fits.append ih
  | negatedGroup _ ih => exact ih

abbrev SumValue (r : Rank) (items : List Item) (x : Option ℚ) : Prop :=
  HasValue true asWritten r (items.flatMap Item.lexemes) x

/-- What becomes of a phrase when mixed numbers are sums: a phrase of the same rank, unless the
phrase is just a mixed number. -/
inductive Summed : Rank → List Item → Option ℚ → Prop
  | phrase {r : Rank} {items : List Item} {x : Option ℚ} (h : SumValue r items x) :
      Summed r items x
  | mixed {r : Rank} (hr : r ≠ .sum) (whole num den : List Char) :
      Summed r [.mixed whole num den] ((quotient num den).map ((Numeral.value whole : ℚ) + ·))

theorem wordOfDigits_cast {digits : List Char} {n : Int64} (h : wordOfDigits digits = .ok n) :
    (n.toInt : ℚ) = Numeral.value digits := by
  rw [wordOfDigits_eq_ok_iff.1 h, Int.cast_natCast]

theorem signed_cast {digits : List Char} {n : Int64} (negative : Bool)
    (h : wordOfDigits digits = .ok n) :
    ((signed negative n).toInt : ℚ) =
      if negative then -(Numeral.value digits : ℚ) else Numeral.value digits := by
  rw [toInt_signed_of_digits negative h]
  split <;> simp

theorem Item.Value.exists_denotes {l : Lexeme} {x : Option ℚ} (h : (Item.lexeme l).Value x)
    (hfits : Fits [l]) (negative : Bool) :
    ∃ o, Denotes negative l o ∧ o.exact = if negative then x.map (-·) else x := by
  cases h with
  | number digits =>
    obtain ⟨n, hn⟩ := hfits digits (by simp [Lexeme.runs])
    refine ⟨_, .number hn, ?_⟩
    rw [Operand.exact, signed_cast negative hn]
    cases negative <;> rfl
  | ratio num den =>
    obtain ⟨n, hn⟩ := hfits num (by simp [Lexeme.runs])
    obtain ⟨d, hd⟩ := hfits den (by simp [Lexeme.runs])
    refine ⟨_, .ratio hn hd, ?_⟩
    have hzero : d.toInt = 0 ↔ (Numeral.value den : ℚ) = 0 := by
      rw [← wordOfDigits_cast hd, Int.cast_eq_zero]
    rw [Operand.exact, signed_cast negative hn, wordOfDigits_cast hd, quotient, Operator.exact]
    cases negative <;> simp [hzero, neg_div, apply_ite (Option.map _)]

theorem Item.Value.literal {l : Lexeme} {x : Option ℚ} (h : (Item.lexeme l).Value x)
    (hfits : Fits [l]) : HasValue true asWritten .factor [l] x := by
  obtain ⟨o, ho, rfl⟩ := h.exists_denotes hfits false
  exact .literal ho

theorem Item.Value.negative {l : Lexeme} {x : Option ℚ} (h : (Item.lexeme l).Value x)
    (hfits : Fits [l]) : HasValue true asWritten .factor [.mark '-', l] (x.map (-·)) := by
  obtain ⟨o, ho, hx⟩ := h.exists_denotes hfits true
  rw [if_pos rfl] at hx
  rw [← hx]
  exact .negative rfl ho

theorem mixed_parts {whole num den : List Char}
    (hfits : Fits (Item.mixed whole num den).lexemes) :
    HasValue true asWritten .product [.number whole] (some (Numeral.value whole)) ∧
      HasValue true asWritten .product [.mark '(', .ratio num den, .mark ')']
        (quotient num den) := by
  have hwhole := (Item.Value.number whole).literal (hfits.mono ⟨[], _, rfl⟩)
  have hratio := (Item.Value.ratio num den).literal
    (hfits.mono ⟨[.number whole, .mark '+', .mark '('], [.mark ')'], rfl⟩)
  exact ⟨hwhole.factor, .factor (.group hratio.factor.product)⟩

theorem mixed_value {whole num den : List Char}
    (hfits : Fits (Item.mixed whole num den).lexemes) :
    HasValue true asWritten .sum (Item.mixed whole num den).lexemes
      ((quotient num den).map ((Numeral.value whole : ℚ) + ·)) := by
  obtain ⟨hwhole, hratio⟩ := mixed_parts hfits
  have hsum := HasValue.binary .add hwhole.product hratio
  have hvalue : (quotient num den).map ((Numeral.value whole : ℚ) + ·) =
      (some (Numeral.value whole : ℚ)).bind fun a =>
        (quotient num den).bind fun b => Operator.add.exact a b := by
    cases quotient num den <;> rfl
  rw [hvalue]
  exact hsum

/-- Adding the parts of a mixed number one after the other adds the mixed number. -/
theorem added_mixed_value {ls : List Lexeme} {x : Option ℚ} {whole num den : List Char}
    (hl : HasValue true asWritten .sum ls x)
    (hfits : Fits (Item.mixed whole num den).lexemes) :
    HasValue true asWritten .sum (ls ++ .mark '+' :: (Item.mixed whole num den).lexemes)
      (x.bind fun a => ((quotient num den).map ((Numeral.value whole : ℚ) + ·)).bind fun b =>
        Operator.add.exact a b) := by
  obtain ⟨hwhole, hratio⟩ := mixed_parts hfits
  have hsum := HasValue.binary .add (.binary .add hl hwhole) hratio
  have hvalue : (x.bind fun a => ((quotient num den).map ((Numeral.value whole : ℚ) + ·)).bind
        fun b => Operator.add.exact a b) =
      (x.bind fun a => (some (Numeral.value whole : ℚ)).bind fun b =>
        Operator.add.exact a b).bind fun a =>
          (quotient num den).bind fun b => Operator.add.exact a b := by
    cases x <;> cases quotient num den <;> simp [Operator.exact, add_assoc]
  rw [hvalue]
  rw [List.append_assoc] at hsum
  exact hsum

theorem Summed.sum {items : List Item} {x : Option ℚ} (h : Summed .sum items x) :
    SumValue .sum items x := by
  cases h with
  | phrase h => exact h
  | mixed hr => exact absurd rfl hr

theorem MixedAdded.ofOperator_eq_sum {op : Operator} {whole num den : List Char}
    {rest : List Item} (h : MixedAdded (.mixed whole num den :: .mark op.symbol :: rest)) :
    Rank.ofOperator op = .sum := by
  rcases h.right op whole num den ⟨[], rest, rfl⟩ with rfl | rfl <;> rfl

/-- Every phrase in which mixed numbers are only added keeps its value when they are sums. -/
theorem StandardValue.summed {r : Rank} {items : List Item} {x : Option ℚ}
    (h : StandardValue r items x) (hadded : MixedAdded items)
    (hfits : Fits (items.flatMap Item.lexemes)) : Summed r items x := by
  induction h with
  | @operand i x h =>
    cases h with
    | number digits => exact .phrase ((Item.Value.number digits).literal hfits)
    | ratio num den => exact .phrase ((Item.Value.ratio num den).literal hfits)
    | mixed whole num den => exact .mixed (by simp) whole num den
  | @negative i x h =>
    have hinner := hfits.mono ⟨[.mark '-'], [], by simp; rfl⟩
    cases h with
    | number digits => exact .phrase ((Item.Value.number digits).negative hinner)
    | ratio num den => exact .phrase ((Item.Value.ratio num den).negative hinner)
    -- what is left of a mixed number is a plus, so no minus stands directly before it
    | mixed whole num den => cases hadded.left .sub whole num den (List.infix_rfl)
  | @group items x h ih =>
    have hpart : items <:+: .mark '(' :: (items ++ [.mark ')']) :=
      ⟨[.mark '('], [.mark ')'], by simp⟩
    have hinner := (ih (hadded.mono hpart) (hfits.mono (hpart.flatMap Item.lexemes))).sum.group
    exact .phrase (by simpa [SumValue, Item.lexemes] using hinner)
  | @negated items x h ih =>
    have hpart : items <:+: .mark '-' :: .mark '(' :: (items ++ [.mark ')']) :=
      ⟨[.mark '-', .mark '('], [.mark ')'], by simp⟩
    have hinner := (ih (hadded.mono hpart) (hfits.mono (hpart.flatMap Item.lexemes))).sum
    exact .phrase (by simpa [SumValue, Item.lexemes] using HasValue.negated rfl hinner)
  | @factor items x h ih =>
    cases ih hadded hfits with
    | phrase h => exact .phrase h.factor
    | mixed hr => exact .mixed (by simp) _ _ _
  | @product items x h ih =>
    cases ih hadded hfits with
    | phrase h => exact .phrase h.product
    -- at the rank of sums a mixed number is a phrase like any other
    | mixed hr => exact .phrase (by simpa [SumValue] using mixed_value (by simpa using hfits))
  | @binary op left right x y hl hr ihl ihr =>
    have hpartl : left <:+: left ++ .mark op.symbol :: right := (List.prefix_append _ _).isInfix
    have hpartr : right <:+: left ++ .mark op.symbol :: right :=
      ⟨left ++ [.mark op.symbol], [], by simp⟩
    have hleft := ihl (hadded.mono hpartl) (hfits.mono (hpartl.flatMap Item.lexemes))
    have hright := ihr (hadded.mono hpartr) (hfits.mono (hpartr.flatMap Item.lexemes))
    cases hleft with
    | mixed hrank => exact absurd hadded.ofOperator_eq_sum hrank
    | phrase hleft =>
      cases hright with
      | phrase hright =>
        refine .phrase ?_
        have hall := HasValue.binary op hleft hright
        rw [SumValue, List.flatMap_append, List.flatMap_cons]
        exact hall
      | mixed _ whole num den =>
        obtain rfl := hadded.left op whole num den ⟨left, [], by simp⟩
        refine .phrase ?_
        rw [SumValue, List.flatMap_append, List.flatMap_cons, List.flatMap_singleton]
        exact added_mixed_value hleft (by simpa using hfits.mono (hpartr.flatMap Item.lexemes))

/-! Lexemes of the normal form. -/

theorem Typed.stops_text {items : List Item} {cs : List Char} (h : Typed items cs)
    (hnext : MarkNext items) : Stops (items.flatMap Item.text) := by
  induction h with
  | nil => trivial
  | blank _ _ ih => exact ih hnext
  | mark hc _ _ => exact isDigit_of_mem_marks hc
  | number =>
    obtain ⟨c, hmark⟩ := hnext _ rfl
    cases hmark
  | mixed =>
    obtain ⟨c, hmark⟩ := hnext _ rfl
    cases hmark

theorem pieces_sumText {whole num den rest : List Char} (hwhole : IsRun whole) (hnum : IsRun num)
    (hden : IsRun den) :
    (pieces (sumText whole num den ++ rest)).map Piece.lexeme =
      (Item.mixed whole num den).plainLexemes ++ (pieces rest).map Piece.lexeme := by
  have hplus (cs : List Char) : Stops ('+' :: cs) := rfl
  have hclosing (cs : List Char) : Stops (')' :: cs) := rfl
  simp only [sumText, List.append_assoc, List.cons_append, List.nil_append]
  rw [pieces_run hwhole (hplus _), pieces_mark rfl, pieces_mark rfl,
    pieces_run hnum (stops_slash _), pieces_mark rfl, pieces_run hden (hclosing _), pieces_mark rfl]
  rfl

theorem Typed.map_pieces {items : List Item} {cs : List Char} (h : Typed items cs) :
    (pieces (items.flatMap Item.text)).map Piece.lexeme = items.flatMap Item.plainLexemes := by
  induction h with
  | nil => rfl
  | blank _ _ ih => exact ih
  | mark hc _ ih =>
    rw [List.flatMap_cons, List.flatMap_cons, ← ih, Item.text, List.singleton_append,
      pieces_mark (isDigit_of_mem_marks hc)]
    rfl
  | number hrun hnext h ih =>
    rw [List.flatMap_cons, List.flatMap_cons, ← ih, Item.text,
      pieces_run hrun (h.stops_text hnext)]
    rfl
  | mixed hwhole _ _ hnum _ hden _ _ ih =>
    rw [List.flatMap_cons, List.flatMap_cons, ← ih, Item.text, pieces_sumText hwhole hnum hden]

/-- Behind a number no slash is taken for that of a literal fraction, unless the number is joined
with an item or divided by a mixed number. -/
theorem calm_plainLexemes {digits : List Char} {rest : List Item}
    (hjoin : ∀ den after, rest ≠ .mark '/' :: .number den :: after)
    (hadded : MixedAdded (.number digits :: joined rest)) :
    Calm (rest.flatMap Item.plainLexemes) := by
  intro den after heq
  match rest with
  | .lexeme (.mark c) :: .lexeme (.number ds) :: rest =>
    obtain ⟨hslash, -⟩ := List.cons_eq_cons.1 heq
    cases hslash
    exact hjoin ds rest rfl
  | .lexeme (.mark c) :: .mixed whole num ds :: rest =>
    obtain ⟨hslash, -⟩ := List.cons_eq_cons.1 heq
    cases hslash
    cases hadded.left .div whole num ds ⟨[.number digits], joined rest, by
      simp [joined, Operator.symbol]⟩
  | [] | [.lexeme (.mark c)] | .lexeme (.mark c) :: .lexeme (.mark d) :: rest
  | .lexeme (.mark c) :: .lexeme (.ratio n d) :: rest | .lexeme (.number n) :: rest
  | .lexeme (.ratio n d) :: rest | .mixed whole n d :: rest =>
    simp [Item.plainLexemes] at heq

/-- Joining numbers finds the same literal fractions before and after mixed numbers are expanded. -/
theorem fuse_plainLexemes {items : List Item} (hadded : MixedAdded (joined items)) :
    fuse (items.flatMap Item.plainLexemes) = (joined items).flatMap Item.lexemes := by
  fun_induction joined items with
  | case1 num den rest ih =>
    have hrest := ih (hadded.mono (List.suffix_cons _ _).isInfix)
    simp only [List.flatMap_cons, Item.plainLexemes, Item.lexemes, List.cons_append,
      List.nil_append, fuse, hrest]
  | case2 i rest hjoin ih =>
    have hrest := ih (hadded.mono (List.suffix_cons _ _).isInfix)
    rw [List.flatMap_cons, List.flatMap_cons, ← hrest]
    cases i with
    | mixed whole num den =>
      have hplus (ls : List Lexeme) : Calm (.mark '+' :: ls) := calm_mark (by decide) ls
      simp only [Item.plainLexemes, Item.lexemes, List.cons_append, List.nil_append]
      rw [fuse_number (hplus _), fuse_mark, fuse_mark, fuse, fuse_mark]
    | lexeme l =>
      cases l with
      | mark c => exact fuse_mark c _
      | ratio num den => rfl
      | number digits =>
        have hcalm := calm_plainLexemes (fun den after h => hjoin digits den after rfl h) hadded
        exact fuse_number hcalm digits
  | case3 => rfl

/-- An answer with mixed numbers has the value of the text in which each mixed number is a sum
without parentheses around it. That is the value of the standard reading, in which each mixed number
is one operand, when mixed numbers are added only and nothing but additions and subtractions follows
them; divisions by a negated group are left aside. -/
theorem mixed_numbers {answer : String} {items : List Item} (h : Typed items answer.toList) :
    evaluateFreely answer = evaluateFreely (String.ofList (items.flatMap Item.text)) ∧
      ∀ {value : Fraction} {x : Option ℚ}, evaluateFreely answer = .ok value →
        StandardValue .sum (joined items) x → MixedAdded (joined items) →
        ¬.mark '/' :: negatedFront <:+: lexemes (pieces (normalChars answer.toList)) →
        x = some value.toRat := by
  refine ⟨h.evaluateFreely_eq, ?_⟩
  intro value x hvalue hstandard hadded hdiv
  have hlexemes : lexemes (pieces (normalChars answer.toList)) =
      (joined items).flatMap Item.lexemes := by
    rw [lexemes_eq_fuse, h.normalChars_eq, h.map_pieces, fuse_plainLexemes hadded]
  obtain ⟨tokens, htokens, -⟩ := bind_eq_ok_iff.1 hvalue
  have hfits := (scan_eq_ok_iff.1 htokens).fits
  rw [hlexemes] at hfits
  have hsum := (hstandard.summed hadded hfits).sum
  rw [SumValue, ← hlexemes] at hsum
  exact (hsum.to_asScanned hdiv).eq_of_evaluateFreely hvalue

theorem mixed_numbers_group :
    evaluateFreely "(2+1_1/2)*4" = .ok (Fraction.whole 14) ∧ ∃ items x,
      Typed items "(2+1_1/2)*4".toList ∧ StandardValue .sum (joined items) x ∧
        x = some (Fraction.whole 14).toRat := by
  have hvalue : evaluateFreely "(2+1_1/2)*4" = .ok (Fraction.whole 14) := by decide +kernel
  have hlexemes : lexemes (pieces (normalChars "(2+1_1/2)*4".toList)) =
      [.mark '(', .number ['2'], .mark '+', .number ['1'], .mark '+', .mark '(', .ratio ['1'] ['2'],
        .mark ')', .mark ')', .mark '*', .number ['4']] := by decide +kernel
  have hrun {c : Char} (h : c.isDigit = true) : IsRun [c] := ⟨by simp, by simpa using h⟩
  have hfour : Typed [.number ['4']] ['4'] := .number (hrun rfl) (by simp [MarkNext]) .nil
  have hafter := Typed.mark (c := ')') (by decide) (.mark (c := '*') (by decide) hfour)
  have hmixed : Typed (.mixed ['1'] ['1'] ['2'] :: _) ('1' :: '_' :: '1' :: '/' :: '2' :: _) :=
    .mixed (hrun rfl) (by simp) (by simp [isMixedSeparator] : ∀ c ∈ ['_'], isMixedSeparator c = true)
      (hrun rfl) rfl (hrun rfl) (by simp [MarkNext]) hafter
  have htwo : Typed (.number ['2'] :: _) ('2' :: _) :=
    .number (hrun rfl) (by simp [MarkNext]) (.mark (c := '+') (by decide) hmixed)
  have htyped := Typed.mark (c := '(') (by decide) htwo
  have hsum := StandardValue.binary .add (.product (.factor (.operand (.number ['2']))))
    (.factor (.operand (.mixed ['1'] ['1'] ['2'])))
  have hproduct := StandardValue.binary .mul (.factor (.group hsum)) (.operand (.number ['4']))
  obtain ⟨x, hstandard⟩ : ∃ x, StandardValue .sum (joined [.mark '(', .number ['2'], .mark '+',
      .mixed ['1'] ['1'] ['2'], .mark ')', .mark '*', .number ['4']]) x := ⟨_, hproduct.product⟩
  refine ⟨hvalue, _, x, htyped, hstandard, (mixed_numbers htyped).2 hvalue hstandard ?_ ?_⟩
  · constructor <;> intro op whole num den <;> cases op <;>
      simp [joined, List.infix_cons_iff, Operator.symbol]
  · rw [hlexemes]
    decide

theorem product_of_mixed_number :
    ¬∀ (answer : String) (items : List Item) (value : Fraction) (x : ℚ),
      Typed items answer.toList → evaluateFreely answer = .ok value →
        StandardValue .sum (joined items) (some x) → x = value.toRat := by
  intro h
  have hvalue : evaluateFreely "2*3 1/2" = .ok ⟨13, 2, by decide, by decide⟩ := by decide +kernel
  have hrun {c : Char} (h : c.isDigit = true) : IsRun [c] := ⟨by simp, by simpa using h⟩
  have hmixed : Typed [.mixed ['3'] ['1'] ['2']] ['3', ' ', '1', '/', '2'] :=
    .mixed (hrun rfl) (by simp) (by simp [isMixedSeparator] : ∀ c ∈ [' '], isMixedSeparator c = true)
      (hrun rfl) rfl (hrun rfl) (by simp [MarkNext]) .nil
  have htyped : Typed (.number ['2'] :: _) ('2' :: _) :=
    .number (hrun rfl) (by simp [MarkNext]) (.mark (c := '*') (by decide) hmixed)
  have hproduct := StandardValue.binary .mul (.factor (.operand (.number ['2'])))
    (.operand (.mixed ['3'] ['1'] ['2']))
  have hseven : StandardValue .sum (joined [.number ['2'], .mark '*', .mixed ['3'] ['1'] ['2']])
      (some 7) := by
    have hexact : (some (Numeral.value ['2'] : ℚ)).bind (fun a =>
        ((quotient ['1'] ['2']).map ((Numeral.value ['3'] : ℚ) + ·)).bind fun b =>
          Operator.mul.exact a b) = some 7 := by
      have hone : Numeral.value ['1'] = 1 := rfl
      have htwo : Numeral.value ['2'] = 2 := rfl
      have hthree : Numeral.value ['3'] = 3 := rfl
      norm_num [quotient, Operator.exact, hone, htwo, hthree]
    rw [← hexact]
    exact hproduct.product
  have heq := h _ _ _ _ htyped hvalue hseven
  have hnum : (13 : Int64).toInt = 13 := by decide
  have hden : (2 : Int64).toInt = 2 := by decide
  norm_num [Fraction.toRat_eq_div, hnum, hden] at heq

end TargetQuiz.Expression
