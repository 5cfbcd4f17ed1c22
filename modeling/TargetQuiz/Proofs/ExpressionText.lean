import TargetQuiz.Expression.Normal
import TargetQuiz.Proofs.ExpressionInfix
import TargetQuiz.Proofs.ExpressionOffer
import TargetQuiz.Proofs.ExpressionScan

/-! Written without blanks, a parse tree reads back as its tokens, unless a quotient of two numbers
in it would be taken for a literal fraction. -/
namespace TargetQuiz.Expression

def marks : List Char := ['+', '-', '*', '/', '(', ')']

def Plain (c : Char) : Prop := c.isDigit = true ∨ c ∈ marks

theorem unchanged_of_mem_marks {c : Char} (h : c ∈ marks) :
    plainSign c = c ∧ isMixedSeparator c = false ∧ Text.isBlank c = false := by
  simp only [marks, List.mem_cons, List.not_mem_nil, or_false] at h
  rcases h with rfl | rfl | rfl | rfl | rfl | rfl <;> decide

theorem plainSign_of_plain {c : Char} (h : Plain c) : plainSign c = c := by
  rcases h with h | h
  · unfold plainSign
    split <;> first | rfl | (exact absurd h (by decide))
  · exact (unchanged_of_mem_marks h).1

theorem isMixedSeparator_of_plain {c : Char} (h : Plain c) : isMixedSeparator c = false := by
  rcases h with h | h
  · by_contra hsep
    simp only [isMixedSeparator, Bool.not_eq_false, Bool.or_eq_true, beq_iff_eq] at hsep
    rcases hsep with rfl | rfl
    · exact absurd h (by decide)
    · exact absurd h (by decide)
  · exact (unchanged_of_mem_marks h).2.1

theorem isBlank_of_plain {c : Char} (h : Plain c) : Text.isBlank c = false := by
  rcases h with h | h
  · exact Text.isBlank_of_isDigit h
  · exact (unchanged_of_mem_marks h).2.2

theorem mixedTail?_of_plain {cs : List Char} (h : ∀ c ∈ cs, Plain c) : mixedTail? cs = none := by
  have hnone : cs.takeWhile isMixedSeparator = [] := by
    cases cs with
    | nil => rfl
    | cons c cs => simp [isMixedSeparator_of_plain (h c List.mem_cons_self)]
  unfold mixedTail?
  rw [hnone]
  dsimp only
  split <;> simp

theorem plain_of_mem_dropWhile {c : Char} {rest : List Char} (h : ∀ d ∈ c :: rest, Plain d)
    (p : Char → Bool) : ∀ d ∈ rest.dropWhile p, Plain d := by
  intro d hd
  exact h d (List.mem_cons_of_mem _ ((List.dropWhile_sublist p).subset hd))

theorem expandMixed_of_plain {cs : List Char} (h : ∀ c ∈ cs, Plain c) : expandMixed cs = cs := by
  fun_induction expandMixed cs with
  | case1 => rfl
  | case2 c rest _ _ _ _ _ htail =>
    rw [mixedTail?_of_plain (plain_of_mem_dropWhile h _)] at htail
    cases htail
  | case3 c rest _ whole _ ih =>
    rw [ih (plain_of_mem_dropWhile h _)]
    simp [whole, List.takeWhile_append_dropWhile]
  | case4 c rest _ ih => rw [ih (List.forall_mem_cons.1 h).2]

theorem map_plainSign_of_plain {cs : List Char} (h : ∀ c ∈ cs, Plain c) :
    cs.map plainSign = cs := by
  rw [List.map_congr_left fun c hc => plainSign_of_plain (h c hc), List.map_id']

theorem normalChars_of_plain {cs : List Char} (h : ∀ c ∈ cs, Plain c) : normalChars cs = cs := by
  rw [normalChars, map_plainSign_of_plain h, expandMixed_of_plain h, List.filter_eq_self]
  intro c hc
  simp [isBlank_of_plain (h c hc)]

/-! Reading from the front. -/

/-- No digit stands at the front. -/
def Stops : List Char → Prop
  | [] => True
  | c :: _ => c.isDigit = false

/-- No slash with a digit behind it stands at the front. -/
def NoRatio : List Char → Prop
  | '/' :: rest => Stops rest
  | _ => True

theorem pieces_mark {c : Char} (h : c.isDigit = false) (rest : List Char) :
    pieces (c :: rest) = .mark c :: pieces rest := if_neg (by simp [h])

theorem pieces_digits {digits rest : List Char} (hne : digits ≠ [])
    (hdigits : ∀ c ∈ digits, c.isDigit = true) (hstop : Stops rest) :
    pieces (digits ++ rest) = .run digits :: pieces rest := by
  induction digits with
  | nil => exact absurd rfl hne
  | cons c digits ih =>
    obtain ⟨hc, hdigits⟩ := List.forall_mem_cons.1 hdigits
    rw [List.cons_append, pieces, if_pos hc]
    cases digits with
    | nil =>
      cases rest with
      | nil => rfl
      | cons d rest => rw [List.nil_append, pieces_mark hstop]
    | cons d digits => rw [ih (by simp) hdigits]

theorem pieces_ofNat (n : Nat) {rest : List Char} (hstop : Stops rest) :
    pieces (Numeral.ofNat n ++ rest) = .run (Numeral.ofNat n) :: pieces rest :=
  pieces_digits (Numeral.ofNat_ne_nil n) (fun _ => Numeral.isDigit_of_mem_ofNat) hstop

/-- A run of digits is a number when no slash and digits follow. -/
theorem lexemes_run (digits : List Char) {rest : List Char} (h : NoRatio rest) :
    lexemes (.run digits :: pieces rest) = .number digits :: lexemes (pieces rest) := by
  rw [lexemes.eq_def]
  -- Only a slash and a digit behind it could join the run.
  cases rest with
  | nil => rfl
  | cons c rest =>
    cases hc : c.isDigit with
    | true =>
      rw [pieces, if_pos hc]
      cases pieces rest with
      | nil => rfl
      | cons p ps => cases p <;> rfl
    | false =>
      rw [pieces_mark hc]
      by_cases hslash : c = '/'
      · subst hslash
        cases rest with
        | nil => rfl
        | cons d rest =>
          rw [pieces_mark h]
          rfl
      · simp [hslash]

/-- The text reads as the tokens; the flag says that an operand has to come next. -/
def Reads (fresh : Bool) (cs : List Char) (tokens : List Token) : Prop :=
  Scanned fresh (lexemes (pieces cs)) tokens

theorem wordOfDigits_magnitude {n : Int64} (h : Int64.minValue < n) :
    wordOfDigits (Numeral.ofNat n.toInt.natAbs) = .ok (magnitude n) := by
  rw [wordOfDigits_eq_ok_iff, Numeral.value_ofNat, toInt_magnitude h]

theorem signed_magnitude {n : Int64} (h : Int64.minValue < n) :
    signed (decide (n.toInt < 0)) (magnitude n) = n := by
  apply Int64.toInt_inj.1
  have hmagnitude := toInt_magnitude h
  rw [toInt_signed _ (by omega), hmagnitude]
  by_cases hn : n.toInt < 0
  · rw [decide_eq_true hn, if_pos rfl]
    omega
  · rw [decide_eq_false hn, if_neg (by simp)]
    omega

theorem denotes_integer {n : Int64} (hn : Int64.minValue < n) :
    Denotes (decide (n.toInt < 0)) (.number (Numeral.ofNat n.toInt.natAbs)) (.integer n) := by
  have h : Denotes (decide (n.toInt < 0)) _ _ := .number (wordOfDigits_magnitude hn)
  rwa [signed_magnitude hn] at h

theorem denotes_ratio {n d : Int64} (hn : Int64.minValue < n) (hd : 0 ≤ d.toInt) :
    Denotes (decide (n.toInt < 0))
      (.ratio (Numeral.ofNat n.toInt.natAbs) (Numeral.ofNat d.toInt.natAbs)) (.ratio n d) := by
  have hden : wordOfDigits (Numeral.ofNat d.toInt.natAbs) = .ok d := by
    rw [wordOfDigits_eq_ok_iff, Numeral.value_ofNat]
    omega
  have h : Denotes (decide (n.toInt < 0)) _ _ := .ratio (wordOfDigits_magnitude hn) hden
  rwa [signed_magnitude hn] at h

def minus : Bool → List Char
  | true => ['-']
  | false => []

theorem ofInt_eq (z : Int) :
    Numeral.ofInt z = minus (decide (z < 0)) ++ Numeral.ofNat z.natAbs := by
  unfold Numeral.ofInt
  by_cases h : z < 0 <;> simp [h, minus]

namespace Reads

variable {fresh : Bool} {rest : List Char} {tokens : List Token}

theorem opening (h : Reads true rest tokens) : Reads fresh ('(' :: rest) (.opening :: tokens) := by
  rw [Reads, pieces_mark (by decide), lexemes]
  exact .opening fresh h

theorem closing (h : Reads false rest tokens) :
    Reads false (')' :: rest) (.closing :: tokens) := by
  rw [Reads, pieces_mark (by decide), lexemes]
  exact .closing false h

theorem operator (op : Operator) (h : Reads true rest tokens) :
    Reads false (op.symbol :: rest) (.operator op :: tokens) := by
  rw [Reads, pieces_mark (by cases op <;> decide), lexemes]
  exact .operator op (fun _ => rfl) h

theorem literal {lexeme : Lexeme} {o : Operand} {cs : List Char} {negative : Bool}
    (hdenotes : Denotes negative lexeme o)
    (hcs : lexemes (pieces (cs ++ rest)) = lexeme :: lexemes (pieces rest))
    (h : Reads false rest tokens) :
    Reads true (minus negative ++ cs ++ rest) (.operand o :: tokens) := by
  cases negative with
  | false =>
    rw [Reads, minus, List.nil_append, hcs]
    exact .literal true hdenotes h
  | true =>
    rw [Reads, minus, List.append_assoc, List.singleton_append, pieces_mark (by decide), lexemes,
      hcs]
    exact .negative hdenotes h

theorem integer {n : Int64} (hn : Int64.minValue < n) (hstop : Stops rest)
    (hratio : NoRatio rest) (h : Reads false rest tokens) :
    Reads true (Numeral.ofInt n.toInt ++ rest) (.operand (.integer n) :: tokens) := by
  rw [ofInt_eq]
  refine literal (denotes_integer hn) ?_ h
  rw [pieces_ofNat _ hstop, lexemes_run _ hratio]

theorem ratio {n d : Int64} (hn : Int64.minValue < n) (hd : 0 ≤ d.toInt) (hstop : Stops rest)
    (h : Reads false rest tokens) :
    Reads true (Numeral.ofInt n.toInt ++ '/' :: Numeral.ofInt d.toInt ++ rest)
      (.operand (.ratio n d) :: tokens) := by
  have hden : Numeral.ofInt d.toInt = Numeral.ofNat d.toInt.natAbs := if_neg (by omega)
  have hslash : Stops ('/' :: (Numeral.ofNat d.toInt.natAbs ++ rest)) := rfl
  rw [ofInt_eq, hden, List.append_assoc (minus _)]
  refine literal (denotes_ratio hn hd) ?_ h
  rw [List.append_assoc, List.cons_append, pieces_ofNat _ hslash, pieces_mark (by decide),
    pieces_ofNat _ hstop, lexemes]

end Reads

/-! Parse trees. -/

def Operand.text : Operand → List Char
  | .integer n => Numeral.ofInt n.toInt
  | .ratio num den => Numeral.ofInt num.toInt ++ '/' :: Numeral.ofInt den.toInt
  | .minusOne => ['-', '1']

/-- Whether what is typed for an operand reads as the operand. -/
def Operand.Legible : Operand → Prop
  | .integer n => Int64.minValue < n
  | .ratio num den => Int64.minValue < num ∧ 0 ≤ den.toInt
  | .minusOne => False

namespace Infix

def text {r : Rank} : Infix r → List Char
  | .operand o => o.text
  | .group e => '(' :: (e.text ++ [')'])
  | .factor f => f.text
  | .product t => t.text
  | .binary op left right => left.text ++ op.symbol :: right.text

/-- Whether the text ends with an integer, which may become the numerator of a literal. -/
def endsInteger {r : Rank} : Infix r → Bool
  | .operand (.integer _) => true
  | .operand _ => false
  | .group _ => false
  | .factor f => f.endsInteger
  | .product t => t.endsInteger
  | .binary _ _ right => right.endsInteger

/-- Whether the text reads as the tokens: no division is mistaken for a literal. -/
def Legible {r : Rank} : Infix r → Prop
  | .operand o => o.Legible
  | .group e => e.Legible
  | .factor f => f.Legible
  | .product t => t.Legible
  | .binary op left right => left.Legible ∧ right.Legible ∧
      (op = .div → left.endsInteger = true → Stops right.text)

theorem text_ne_nil {r : Rank} (e : Infix r) : e.text ≠ [] := by
  induction e with
  | operand o =>
    cases o with
    | integer n => simp [text, Operand.text, ofInt_eq, Numeral.ofNat_ne_nil]
    | ratio num den => simp [text, Operand.text]
    | minusOne => simp [text, Operand.text]
  | group e _ => simp [text]
  | factor f ih => exact ih
  | product t ih => exact ih
  | binary op left right _ _ => simp [text]

theorem noRatio_operator {op : Operator} {cs : List Char} (hne : cs ≠ [])
    (h : op = .div → Stops cs) (rest : List Char) : NoRatio (op.symbol :: (cs ++ rest)) := by
  cases op with
  | div =>
    cases cs with
    | nil => exact absurd rfl hne
    | cons c cs => exact h rfl
  | add => trivial
  | sub => trivial
  | mul => trivial

/-- The text of a parse tree reads as its tokens, whatever follows that does not go on with it. -/
theorem reads {r : Rank} (e : Infix r) (hlegible : e.Legible) {rest : List Char}
    {tokens : List Token} (hstop : Stops rest) (hratio : e.endsInteger = true → NoRatio rest)
    (h : Reads false rest tokens) : Reads true (e.text ++ rest) (e.tokens ++ tokens) := by
  induction e generalizing rest tokens with
  | operand o =>
    cases o with
    | integer n => exact h.integer hlegible hstop (hratio rfl)
    | ratio num den => exact h.ratio hlegible.1 hlegible.2 hstop
    | minusOne => exact absurd hlegible not_false
  | group e ih =>
    have hinner : Reads true (e.text ++ ')' :: rest) (e.tokens ++ .closing :: tokens) :=
      ih hlegible rfl (fun _ => trivial) h.closing
    simpa [text, Infix.tokens] using hinner.opening
  | factor f ih => exact ih hlegible hstop hratio h
  | product t ih => exact ih hlegible hstop hratio h
  | binary op left right ihl ihr =>
    obtain ⟨hleft, hright, hdiv⟩ := hlegible
    have hreads := (ihr hright hstop hratio h).operator op
    simp only [text, Infix.tokens, List.append_assoc, List.cons_append]
    refine ihl hleft ?_ (fun hends => ?_) hreads
    · cases op <;> rfl
    · exact noRatio_operator right.text_ne_nil (fun hop => hdiv hop hends) rest

theorem plain_of_mem_ofInt {z : Int} {c : Char} (h : c ∈ Numeral.ofInt z) : Plain c := by
  unfold Numeral.ofInt at h
  split at h
  · rcases List.mem_cons.1 h with rfl | h
    · exact .inr (by decide)
    · exact .inl (Numeral.isDigit_of_mem_ofNat h)
  · exact .inl (Numeral.isDigit_of_mem_ofNat h)

theorem plain_symbol (op : Operator) : Plain op.symbol := by
  cases op <;> exact .inr (by decide)

theorem plain_of_mem_text {r : Rank} (e : Infix r) : ∀ c ∈ e.text, Plain c := by
  induction e with
  | operand o =>
    cases o with
    | integer n => exact fun c => plain_of_mem_ofInt
    | ratio num den =>
      intro c hc
      rcases List.mem_append.1 hc with hc | hc
      · exact plain_of_mem_ofInt hc
      · rcases List.mem_cons.1 hc with rfl | hc
        · exact plain_symbol .div
        · exact plain_of_mem_ofInt hc
    | minusOne => simp [text, Operand.text, Plain, marks]
  | group e ih =>
    intro c hc
    simp only [text, List.mem_cons, List.mem_append, List.not_mem_nil, or_false] at hc
    rcases hc with rfl | hc | rfl
    · exact .inr (by decide)
    · exact ih c hc
    · exact .inr (by decide)
  | factor f ih => exact ih
  | product t ih => exact ih
  | binary op left right ihl ihr =>
    intro c hc
    rcases List.mem_append.1 hc with hc | hc
    · exact ihl c hc
    · rcases List.mem_cons.1 hc with rfl | hc
      · exact plain_symbol op
      · exact ihr c hc

theorem tokenize_text (e : Infix .sum) (h : e.Legible) :
    tokenize (normalize (String.ofList e.text)) = .ok e.tokens := by
  have hreads : Reads true (e.text ++ []) (e.tokens ++ []) :=
    e.reads h trivial (fun _ => trivial) (.nil false)
  rw [List.append_nil, List.append_nil] at hreads
  rw [tokenize_normalize, String.toList_ofList, normalChars_of_plain e.plain_of_mem_text]
  exact scan_of_scanned hreads 0

theorem evaluate_text (e : Infix .sum) (h : e.Legible) {allowed : List Int64} {value : Fraction}
    (hoffer : (e.tree.operands.flatMap Operand.typed).Subperm allowed)
    (hvalue : e.tree.eval = .ok value) :
    evaluate (String.ofList e.text) allowed = .ok value := by
  have htyped : (typedNumbers e.tokens).Subperm allowed := by
    rwa [typedNumbers_eq, operandsOf_tokens]
  exact evaluate_eq_ok_iff.2
    ⟨e.tokens, e.tokenize_text h, htyped, e.tree, toPostorder_tokens e, hvalue⟩

theorem evaluateFreely_text (e : Infix .sum) (h : e.Legible) {value : Fraction}
    (hvalue : e.tree.eval = .ok value) :
    evaluateFreely (String.ofList e.text) = .ok value :=
  evaluateFreely_eq_ok_iff.2 ⟨e.tokens, e.tokenize_text h, e.tree, toPostorder_tokens e, hvalue⟩

def single (f : Infix .factor) : Infix .sum := .product (.factor f)

def joined (op : Operator) (left right : Infix .factor) : Infix .sum :=
  match op with
  | .add => .binary .add (.product (.factor left)) (.factor right)
  | .sub => .binary .sub (.product (.factor left)) (.factor right)
  | .mul => .product (.binary .mul (.factor left) right)
  | .div => .product (.binary .div (.factor left) right)

theorem single_tree (f : Infix .factor) : (single f).tree = f.tree := rfl

theorem joined_text (op : Operator) (left right : Infix .factor) :
    (joined op left right).text = left.text ++ op.symbol :: right.text := by
  cases op <;> rfl

theorem joined_tree (op : Operator) (left right : Infix .factor) :
    (joined op left right).tree = .node op left.tree right.tree := by
  cases op <;> rfl

theorem joined_legible {op : Operator} {left right : Infix .factor} (hleft : left.Legible)
    (hright : right.Legible) (hdiv : op = .div → left.endsInteger = true → Stops right.text) :
    (joined op left right).Legible := by
  cases op <;> exact ⟨hleft, hright, hdiv⟩

end Infix
end TargetQuiz.Expression
