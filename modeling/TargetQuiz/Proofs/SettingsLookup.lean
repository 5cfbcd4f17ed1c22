import TargetQuiz.Proofs.Numerals
import TargetQuiz.Proofs.Outcome
import TargetQuiz.Proofs.TierSchedule
import TargetQuiz.Settings

/-! Each variable is unset, a numeral of its range with blanks around it, or faulty. The first
faulty one in reading order is reported, and nothing else is read into the settings then. -/
namespace TargetQuiz.Settings

structure Variable where
  name : String
  signed : Bool
  least : Int
  greatest : Int
  deriving DecidableEq, Repr

def seedVariable : Variable := ⟨seedName, false, 0, 0xFFFFFFFFFFFFFFFF⟩

def questionsVariable : Variable := ⟨questionsName, false, 0, 0xFFFFFFFFFFFFFFFF⟩

def tierVariable : Variable := ⟨tierName, true, -0x8000000000000000, 0x7FFFFFFFFFFFFFFF⟩

def easyVariable : Variable := ⟨easyName, false, 0, 0xFFFFFFFF⟩

def mediumVariable : Variable := ⟨mediumName, false, 0, 0xFFFFFFFF⟩

def readOrder : List Variable :=
  [seedVariable, questionsVariable, tierVariable, easyVariable, mediumVariable]

namespace Variable

/-- The text is a numeral of the variable with blanks around it. -/
def Reads (v : Variable) (raw : String) (z : Int) : Prop :=
  ∃ text, Text.Padded text raw.toList ∧ Numeral.Denotes text z ∧
    (text.head? = some '-' → v.signed = true) ∧ v.least ≤ z ∧ z ≤ v.greatest

inductive Holds (lookup : String → Option String) (v : Variable) : Option Int → Prop
  | unset (h : lookup v.name = none) : Holds lookup v none
  | set {raw : String} {z : Int} (h : lookup v.name = some raw) (hz : v.Reads raw z) :
      Holds lookup v (some z)

def Faulty (lookup : String → Option String) (v : Variable) (raw : String) : Prop :=
  lookup v.name = some raw ∧ ∀ z, ¬v.Reads raw z

/-- The numbers of the variable are read as values, each of them as one. -/
structure ReadBy {α : Type} (v : Variable) (read? : List Char → Option α) (number : α → Int) :
    Prop where
  reads_iff : ∀ raw z, v.Reads raw z ↔ ∃ a, read? (Text.trim raw.toList) = some a ∧ number a = z
  injective : Function.Injective number

end Variable

/-- The first faulty variable and what it is set to. -/
def FirstFaulty (lookup : String → Option String) (vs : List Variable) (name raw : String) : Prop :=
  ∃ before v after, vs = before ++ v :: after ∧ (∀ u ∈ before, ∀ raw, ¬u.Faulty lookup raw) ∧
    v.Faulty lookup raw ∧ v.name = name

/-- The variables hold the settings, with a default for each variable that is unset. -/
structure Given (lookup : String → Option String) (s : Settings) : Prop where
  seed : seedVariable.Holds lookup (s.seed.map fun n => (n.toNat : Int))
  questions : ∃ z?, questionsVariable.Holds lookup z? ∧
    (s.questions.toNat : Int) = max (z?.getD 10) 1
  tier : ∃ z?, tierVariable.Holds lookup z? ∧
    (s.tier.level.toNat : Int) = max 1 (min 3 (z?.getD 1))
  easy : ∃ z?, easyVariable.Holds lookup z? ∧ (s.easyPercent.toNat : Int) = z?.getD 50
  medium : ∃ z?, mediumVariable.Holds lookup z? ∧ (s.mediumPercent.toNat : Int) = z?.getD 30

/-! Numerals of a variable. -/

theorem Variable.reads_iff_trim {v : Variable} {raw : String} {z : Int} :
    v.Reads raw z ↔ Numeral.Denotes (Text.trim raw.toList) z ∧
      ((Text.trim raw.toList).head? = some '-' → v.signed = true) ∧
        v.least ≤ z ∧ z ≤ v.greatest := by
  constructor
  · rintro ⟨text, hpadded, hdenotes, hrest⟩
    rw [hdenotes.trim_eq hpadded]
    exact ⟨hdenotes, hrest⟩
  · rintro ⟨hdenotes, hrest⟩
    exact ⟨_, Text.padded_trim _, hdenotes, hrest⟩

theorem Variable.reads_unsigned_iff {v : Variable} (hsigned : v.signed = false)
    (hleast : v.least = 0) {raw : String} {z : Int} :
    v.Reads raw z ↔ ∃ n, Numeral.nat? (Text.trim raw.toList) = some n ∧ (n : Int) = z ∧
      z ≤ v.greatest := by
  simp only [reads_iff_trim, Numeral.nat?_eq_some_iff, hsigned, hleast]
  constructor
  · rintro ⟨hdenotes, hsign, hnonneg, hle⟩
    obtain ⟨n, rfl⟩ := Int.eq_ofNat_of_zero_le hnonneg
    exact ⟨n, ⟨hdenotes, by simpa using hsign⟩, rfl, hle⟩
  · rintro ⟨n, ⟨hdenotes, hsign⟩, rfl, hle⟩
    exact ⟨hdenotes, by simpa using hsign, Int.natCast_nonneg n, hle⟩

theorem Variable.readBy_unsigned {α : Type} {v : Variable} {word? : Nat → Option α}
    {number : α → Nat} (hsigned : v.signed = false) (hleast : v.least = 0)
    (hword : ∀ n a, word? n = some a ↔ number a = n)
    (hrange : ∀ n : Nat, (n : Int) ≤ v.greatest ↔ ∃ a, number a = n) :
    v.ReadBy (fun cs => (Numeral.nat? cs).bind word?) fun a => (number a : Int) where
  reads_iff raw z := by
    simp only [reads_unsigned_iff hsigned hleast, Option.bind_eq_some_iff, hword]
    constructor
    · rintro ⟨n, hn, rfl, hle⟩
      obtain ⟨a, ha⟩ := (hrange n).1 hle
      exact ⟨a, ⟨n, hn, ha⟩, congrArg _ ha⟩
    · rintro ⟨a, ⟨n, hn, ha⟩, rfl⟩
      exact ⟨n, hn, by rw [ha], (hrange _).2 ⟨a, rfl⟩⟩
  injective a b h := by
    have ha := (hword _ a).2 rfl
    have hb := (hword _ b).2 (Int.ofNat_inj.1 h).symm
    exact Option.some.inj (ha.symm.trans hb)

theorem le_uint64_iff (n : Nat) :
    (n : Int) ≤ 0xFFFFFFFFFFFFFFFF ↔ ∃ w : UInt64, w.toNat = n := by
  constructor
  · intro hle
    exact ⟨_, UInt64.toNat_ofNatLT (h := by simp only [UInt64.size]; omega)⟩
  · rintro ⟨w, rfl⟩
    have hlt := w.toNat_lt
    omega

theorem le_uint32_iff (n : Nat) : (n : Int) ≤ 0xFFFFFFFF ↔ ∃ w : UInt32, w.toNat = n := by
  constructor
  · intro hle
    exact ⟨_, UInt32.toNat_ofNatLT (h := by simp only [UInt32.size]; omega)⟩
  · rintro ⟨w, rfl⟩
    have hlt := w.toNat_lt
    omega

theorem readBy_seed : seedVariable.ReadBy uint64? fun n => (n.toNat : Int) :=
  Variable.readBy_unsigned rfl rfl (fun _ _ => Word.uint64?_eq_some_iff) le_uint64_iff

theorem readBy_questions : questionsVariable.ReadBy uint64? fun n => (n.toNat : Int) :=
  Variable.readBy_unsigned rfl rfl (fun _ _ => Word.uint64?_eq_some_iff) le_uint64_iff

theorem readBy_easy : easyVariable.ReadBy uint32? fun n => (n.toNat : Int) :=
  Variable.readBy_unsigned rfl rfl (fun _ _ => Word.uint32?_eq_some_iff) le_uint32_iff

theorem readBy_medium : mediumVariable.ReadBy uint32? fun n => (n.toNat : Int) :=
  Variable.readBy_unsigned rfl rfl (fun _ _ => Word.uint32?_eq_some_iff) le_uint32_iff

theorem readBy_tier : tierVariable.ReadBy int64? Int64.toInt where
  reads_iff raw z := by
    simp only [Variable.reads_iff_trim, ← Numeral.int?_eq_some_iff, int64?,
      Option.bind_eq_some_iff, Word.int64?_eq_some_iff]
    constructor
    · rintro ⟨hz, -, hle, hge⟩
      obtain ⟨w, hw⟩ := Word.exists_int64? (z := z) hle hge
      have hword := Word.int64?_eq_some_iff.1 hw
      exact ⟨w, ⟨z, hz, hword⟩, hword⟩
    · rintro ⟨w, ⟨z', hz', rfl⟩, rfl⟩
      exact ⟨hz', fun _ => rfl, w.le_toInt, Int.le_sub_one_of_lt w.toInt_lt⟩
  injective _ _ h := Int64.toInt_inj.1 h

/-! One variable. -/

section Holds

variable {lookup : String → Option String} {v : Variable} {z? z?' : Option Int} {raw : String}

theorem Variable.Holds.unique (h : v.Holds lookup z?) (h' : v.Holds lookup z?') : z? = z?' := by
  cases h with
  | unset hunset =>
    cases h' with
    | unset _ => rfl
    | set hset' hz' => simp [hunset] at hset'
  | set hset hz =>
    cases h' with
    | unset hunset' => simp [hset] at hunset'
    | set hset' hz' =>
      rw [hset, Option.some.injEq] at hset'
      subst hset'
      have hread := Numeral.int?_eq_some_iff.2 (reads_iff_trim.1 hz).1
      rw [← hread]
      exact Numeral.int?_eq_some_iff.2 (reads_iff_trim.1 hz').1

theorem Variable.Holds.not_faulty (h : v.Holds lookup z?) : ¬v.Faulty lookup raw := by
  rintro ⟨hraw, hfaulty⟩
  cases h with
  | unset hunset => simp [hunset] at hraw
  | set hset hz =>
    rw [hset, Option.some.injEq] at hraw
    exact hfaulty _ (hraw ▸ hz)

end Holds

section Setting

variable {α : Type} {lookup : String → Option String} {v : Variable} {read? : List Char → Option α}
  {number : α → Int}

theorem setting?_eq_ok_iff (hread : v.ReadBy read? number) {a? : Option α} :
    setting? lookup read? v.name = .ok a? ↔ v.Holds lookup (a?.map number) := by
  unfold setting?
  cases hraw : lookup v.name with
  | none =>
    rw [Except.ok.injEq]
    constructor
    · rintro rfl
      exact .unset hraw
    · intro h
      cases a? with
      | none => rfl
      | some a =>
        cases h with
        | set hset hz => simp [hraw] at hset
  | some raw =>
    constructor
    · intro h
      dsimp only at h
      split at h
      · rename_i a ha
        cases h
        exact .set hraw ((hread.reads_iff raw _).2 ⟨a, ha, rfl⟩)
      · cases h
    · intro h
      cases a? with
      | none =>
        cases h with
        | unset hunset => simp [hraw] at hunset
      | some a =>
        cases h with
        | set hset hz =>
          rw [hraw, Option.some.injEq] at hset
          subst hset
          obtain ⟨b, hb, heq⟩ := (hread.reads_iff _ _).1 hz
          obtain rfl := hread.injective heq
          simp [hb]

theorem setting?_eq_error_iff (hread : v.ReadBy read? number) {e : SettingsError} :
    setting? lookup read? v.name = .error e ↔
      ∃ raw, v.Faulty lookup raw ∧ e = .invalidValue v.name raw := by
  unfold setting? Variable.Faulty
  cases hraw : lookup v.name with
  | none => simp
  | some raw =>
    cases ha : read? (Text.trim raw.toList) with
    | none => simp [ha, hread.reads_iff, eq_comm]
    | some a => simp [ha, hread.reads_iff]

end Setting

/-! All variables. -/

/-- What the variables hold, be the shares as they may. -/
def readAll (lookup : String → Option String) : Except SettingsError Settings := do
  let seed ← setting? lookup uint64? seedVariable.name
  let questions ← setting? lookup uint64? questionsVariable.name
  let level ← setting? lookup int64? tierVariable.name
  let easy ← setting? lookup uint32? easyVariable.name
  let medium ← setting? lookup uint32? mediumVariable.name
  return {
    seed
    questions := max (questions.getD defaultQuestions) 1
    tier := (level.map Tier.ofLevel).getD .easy
    easyPercent := easy.getD Schedule.defaultEasy
    mediumPercent := medium.getD Schedule.defaultMedium }

theorem ofLookup_eq (lookup : String → Option String) :
    ofLookup lookup = readAll lookup >>= validate := by
  simp only [readAll, bind_assoc, pure_bind]
  rfl

theorem firstFaulty_cons {lookup : String → Option String} {v : Variable} {vs : List Variable}
    {name raw : String} : FirstFaulty lookup (v :: vs) name raw ↔
      v.Faulty lookup raw ∧ v.name = name ∨
        (∀ raw, ¬v.Faulty lookup raw) ∧ FirstFaulty lookup vs name raw := by
  constructor
  · rintro ⟨before, u, after, hsplit, hbefore, hu, hname⟩
    cases before with
    | nil =>
      obtain ⟨rfl, rfl⟩ := List.cons_eq_cons.1 hsplit
      exact .inl ⟨hu, hname⟩
    | cons w before =>
      obtain ⟨rfl, rfl⟩ := List.cons_eq_cons.1 hsplit
      rw [List.forall_mem_cons] at hbefore
      exact .inr ⟨hbefore.1, before, u, after, rfl, hbefore.2, hu, hname⟩
  · rintro (⟨hv, hname⟩ | ⟨hv, before, u, after, rfl, hbefore, hu, hname⟩)
    · exact ⟨[], v, vs, rfl, by simp, hv, hname⟩
    · exact ⟨v :: before, u, after, rfl, List.forall_mem_cons.2 ⟨hv, hbefore⟩, hu, hname⟩

theorem exists_firstFaulty_iff {lookup : String → Option String} {vs : List Variable} :
    (∃ name raw, FirstFaulty lookup vs name raw) ↔ ∃ v ∈ vs, ∃ raw, v.Faulty lookup raw := by
  induction vs with
  | nil => simp [FirstFaulty]
  | cons v vs ih =>
    by_cases hv : ∃ raw, v.Faulty lookup raw
    · obtain ⟨raw, hraw⟩ := hv
      exact ⟨fun _ => ⟨v, by simp, raw, hraw⟩,
        fun _ => ⟨v.name, raw, firstFaulty_cons.2 (.inl ⟨hraw, rfl⟩)⟩⟩
    · have hv' := not_exists.1 hv
      simp [firstFaulty_cons, hv', ih]

/-- The complaint about the first faulty variable. -/
def Refused (lookup : String → Option String) (vs : List Variable) (e : SettingsError) : Prop :=
  ∃ name raw, e = .invalidValue name raw ∧ FirstFaulty lookup vs name raw

theorem bind_setting?_eq_error_iff {α β : Type} {lookup : String → Option String} {v : Variable}
    {vs : List Variable} {read? : List Char → Option α} {number : α → Int}
    (hread : v.ReadBy read? number) {next : Option α → Except SettingsError β} {e : SettingsError}
    (hnext : ∀ a?, next a? = .error e ↔ Refused lookup vs e) :
    (setting? lookup read? v.name >>= next) = .error e ↔ Refused lookup (v :: vs) e := by
  rw [bind_eq_error_iff, setting?_eq_error_iff hread]
  simp only [hnext, Refused, firstFaulty_cons]
  constructor
  · rintro (⟨raw, hraw, rfl⟩ | ⟨a?, ha, name, raw, rfl, hfirst⟩)
    · exact ⟨_, _, rfl, .inl ⟨hraw, rfl⟩⟩
    · refine ⟨_, _, rfl, .inr ⟨fun raw' hfaulty => ?_, hfirst⟩⟩
      have herror := (setting?_eq_error_iff hread).2 ⟨raw', hfaulty, rfl⟩
      rw [ha] at herror
      cases herror
  · rintro ⟨name, raw, rfl, ⟨hraw, rfl⟩ | ⟨hv, hfirst⟩⟩
    · exact .inl ⟨raw, hraw, rfl⟩
    · refine .inr ?_
      cases hsetting : setting? lookup read? v.name with
      | ok a? => exact ⟨a?, rfl, name, raw, rfl, hfirst⟩
      | error cause =>
        obtain ⟨raw', hraw', -⟩ := (setting?_eq_error_iff hread).1 hsetting
        exact absurd hraw' (hv raw')

theorem readAll_eq_error_iff {lookup : String → Option String} {e : SettingsError} :
    readAll lookup = .error e ↔ Refused lookup readOrder e := by
  refine bind_setting?_eq_error_iff readBy_seed fun seed => ?_
  refine bind_setting?_eq_error_iff readBy_questions fun questions => ?_
  refine bind_setting?_eq_error_iff readBy_tier fun level => ?_
  refine bind_setting?_eq_error_iff readBy_easy fun easy => ?_
  refine bind_setting?_eq_error_iff readBy_medium fun medium => ?_
  simp [pure_ne_error, Refused, FirstFaulty]

theorem toNat_max_getD (n? : Option UInt64) :
    ((max (n?.getD defaultQuestions) 1).toNat : Int) =
      max ((n?.map fun n => (n.toNat : Int)).getD 10) 1 := by
  rw [UInt64.toNat_max]
  cases n? <;> simp [defaultQuestions]

theorem toNat_level_ofLevel (level : Int64) :
    ((Tier.ofLevel level).level.toNat : Int) = max 1 (min 3 level.toInt) := by
  unfold Tier.ofLevel
  split
  case isTrue hlow =>
    have hle := Int64.le_iff_toInt_le.1 hlow
    simp [Tier.level] at hle ⊢
    omega
  case isFalse hlow =>
    have hlt := Int64.le_iff_toInt_le.not.1 hlow
    split
    case isTrue htwo => simp [htwo, Tier.level]
    case isFalse htwo =>
      have hne : level.toInt ≠ 2 := fun h => htwo (Int64.toInt_inj.1 h)
      simp [Tier.level] at hlt ⊢
      omega

theorem given_of_readAll {lookup : String → Option String} {s : Settings}
    (h : readAll lookup = .ok s) : Given lookup s := by
  simp only [readAll, bind_eq_ok_iff, pure_eq_ok_iff, setting?_eq_ok_iff readBy_seed,
    setting?_eq_ok_iff readBy_questions, setting?_eq_ok_iff readBy_tier,
    setting?_eq_ok_iff readBy_easy, setting?_eq_ok_iff readBy_medium] at h
  obtain ⟨seed, hseed, questions, hquestions, level, hlevel, easy, heasy, medium, hmedium, rfl⟩ := h
  refine ⟨hseed, ⟨_, hquestions, toNat_max_getD questions⟩, ⟨_, hlevel, ?_⟩, ⟨_, heasy, ?_⟩,
    ⟨_, hmedium, ?_⟩⟩
  · cases level with
    | none => rfl
    | some level => exact toNat_level_ofLevel level
  · cases easy <;> rfl
  · cases medium <;> rfl

theorem toNat_level_injective : Function.Injective fun t : Tier => (t.level.toNat : Int) := by
  intro a b h
  have hword : a.level = b.level := UInt8.toNat_inj.1 (Int.ofNat_inj.1 h)
  have hread := Tier.ofExactLevel_level a
  rw [hword, Tier.ofExactLevel_level] at hread
  exact (Except.ok.inj hread).symm

theorem Given.unique {lookup : String → Option String} {s t : Settings} (hs : Given lookup s)
    (ht : Given lookup t) : s = t := by
  obtain ⟨hseed, ⟨q, hq, hquestions⟩, ⟨l, hl, htier⟩, ⟨e, he, heasy⟩, m, hm, hmedium⟩ := hs
  obtain ⟨hseed', ⟨q', hq', hquestions'⟩, ⟨l', hl', htier'⟩, ⟨e', he', heasy'⟩, m', hm',
    hmedium'⟩ := ht
  rw [hq'.unique hq, ← hquestions] at hquestions'
  rw [hl'.unique hl, ← htier] at htier'
  rw [he'.unique he, ← heasy] at heasy'
  rw [hm'.unique hm, ← hmedium] at hmedium'
  obtain ⟨seed, questions, tier, easy, medium⟩ := s
  obtain ⟨seed', questions', tier', easy', medium'⟩ := t
  rw [Settings.mk.injEq]
  exact ⟨Option.map_injective readBy_seed.injective (hseed.unique hseed'),
    readBy_questions.injective hquestions'.symm, toNat_level_injective htier'.symm,
    readBy_easy.injective heasy'.symm, readBy_medium.injective hmedium'.symm⟩

theorem Given.not_faulty {lookup : String → Option String} {s : Settings} (h : Given lookup s) :
    ∀ v ∈ readOrder, ∀ raw, ¬v.Faulty lookup raw := by
  obtain ⟨hseed, ⟨_, hquestions, -⟩, ⟨_, htier, -⟩, ⟨_, heasy, -⟩, _, hmedium, -⟩ := h
  simp only [readOrder, List.forall_mem_cons, List.not_mem_nil, IsEmpty.forall_iff, implies_true,
    and_true]
  exact ⟨fun _ => hseed.not_faulty, fun _ => hquestions.not_faulty, fun _ => htier.not_faulty,
    fun _ => heasy.not_faulty, fun _ => hmedium.not_faulty⟩

theorem exists_readAll {lookup : String → Option String}
    (h : ∀ v ∈ readOrder, ∀ raw, ¬v.Faulty lookup raw) : ∃ s, readAll lookup = .ok s := by
  cases hread : readAll lookup with
  | ok s => exact ⟨s, rfl⟩
  | error e =>
    obtain ⟨name, raw, -, hfirst⟩ := readAll_eq_error_iff.1 hread
    obtain ⟨v, hv, raw, hraw⟩ := exists_firstFaulty_iff.1 ⟨name, raw, hfirst⟩
    exact absurd hraw (h v hv raw)

theorem readAll_eq_ok_iff {lookup : String → Option String} {s : Settings} :
    readAll lookup = .ok s ↔ Given lookup s := by
  refine ⟨given_of_readAll, fun h => ?_⟩
  obtain ⟨t, ht⟩ := exists_readAll h.not_faulty
  rw [ht, h.unique (given_of_readAll ht)]

theorem exists_given_iff {lookup : String → Option String} :
    (∃ s, Given lookup s) ↔ ∀ v ∈ readOrder, ∀ raw, ¬v.Faulty lookup raw := by
  constructor
  · rintro ⟨s, hs⟩
    exact hs.not_faulty
  · intro h
    obtain ⟨s, hs⟩ := exists_readAll h
    exact ⟨s, given_of_readAll hs⟩

/-! Shares. -/

theorem validate_eq_error_iff {s : Settings} {e : SettingsError} :
    s.validate = .error e ↔ e = .sharesExceedTotal s.easyPercent s.mediumPercent ∧
      100 < s.easyPercent.toNat + s.mediumPercent.toNat := by
  rw [validate]
  split
  · simp [*, eq_comm]
  · simp [*]

def saturatedSum (a b : UInt32) : UInt32 := UInt32.ofNatClamp (a.toNat + b.toNat)

theorem lt_saturatedSum_iff {a b : UInt32} : 100 < saturatedSum a b ↔ 100 < a.toNat + b.toNat := by
  rw [saturatedSum, UInt32.lt_iff_toNat_lt]
  rcases Nat.lt_or_ge (a.toNat + b.toNat) UInt32.size with hlt | hge
  · rw [UInt32.toNat_ofNatClamp_of_lt hlt]
    rfl
  · rw [UInt32.toNat_ofNatClamp_of_le hge]
    simp only [UInt32.size] at hge ⊢
    simp
    omega

theorem validate_eq (s : Settings) :
    s.validate = if 100 < saturatedSum s.easyPercent s.mediumPercent then
      .error (.sharesExceedTotal s.easyPercent s.mediumPercent) else .ok s := by
  simp only [lt_saturatedSum_iff]
  rfl

section Outcome

variable {lookup : String → Option String} {s : Settings} {name raw : String}
  {easy medium : UInt32}

theorem ofLookup_eq_ok_iff : ofLookup lookup = .ok s ↔
    Given lookup s ∧ s.easyPercent.toNat + s.mediumPercent.toNat ≤ 100 := by
  simp only [ofLookup_eq, bind_eq_ok_iff, readAll_eq_ok_iff, validate_eq_ok_iff]
  constructor
  · rintro ⟨_, hgiven, rfl, hshares⟩
    exact ⟨hgiven, hshares⟩
  · rintro ⟨hgiven, hshares⟩
    exact ⟨s, hgiven, rfl, hshares⟩

theorem ofLookup_eq_error_iff {e : SettingsError} : ofLookup lookup = .error e ↔
    Refused lookup readOrder e ∨ ∃ s, Given lookup s ∧
      e = .sharesExceedTotal s.easyPercent s.mediumPercent ∧
        100 < s.easyPercent.toNat + s.mediumPercent.toNat := by
  simp only [ofLookup_eq, bind_eq_error_iff, readAll_eq_error_iff, readAll_eq_ok_iff,
    validate_eq_error_iff]

theorem ofLookup_eq_invalidValue_iff : ofLookup lookup = .error (.invalidValue name raw) ↔
    FirstFaulty lookup readOrder name raw := by
  simp [ofLookup_eq_error_iff, Refused]

theorem ofLookup_eq_sharesExceedTotal_iff :
    ofLookup lookup = .error (.sharesExceedTotal easy medium) ↔
      ∃ s, Given lookup s ∧ s.easyPercent = easy ∧ s.mediumPercent = medium ∧
        100 < easy.toNat + medium.toNat := by
  simp only [ofLookup_eq_error_iff, Refused, reduceCtorEq, false_and, exists_false, false_or,
    SettingsError.sharesExceedTotal.injEq]
  constructor
  · rintro ⟨s, hgiven, ⟨rfl, rfl⟩, hshares⟩
    exact ⟨s, hgiven, rfl, rfl, hshares⟩
  · rintro ⟨s, hgiven, rfl, rfl, hshares⟩
    exact ⟨s, hgiven, ⟨rfl, rfl⟩, hshares⟩

theorem exists_ofLookup_iff : (∃ s, ofLookup lookup = .ok s) ↔
    (∀ v ∈ readOrder, ∀ raw, ¬v.Faulty lookup raw) ∧ ∃ easy? medium?,
      easyVariable.Holds lookup easy? ∧ mediumVariable.Holds lookup medium? ∧
        easy?.getD 50 + medium?.getD 30 ≤ 100 := by
  simp only [ofLookup_eq_ok_iff, ← exists_given_iff]
  constructor
  · rintro ⟨s, hgiven, hshares⟩
    obtain ⟨easy?, heasy, heasyShare⟩ := hgiven.easy
    obtain ⟨medium?, hmedium, hmediumShare⟩ := hgiven.medium
    exact ⟨⟨s, hgiven⟩, easy?, medium?, heasy, hmedium, by omega⟩
  · rintro ⟨⟨s, hgiven⟩, easy?, medium?, heasy, hmedium, hshares⟩
    obtain ⟨_, heasy', heasyShare⟩ := hgiven.easy
    obtain ⟨_, hmedium', hmediumShare⟩ := hgiven.medium
    rw [heasy'.unique heasy] at heasyShare
    rw [hmedium'.unique hmedium] at hmediumShare
    exact ⟨s, hgiven, by omega⟩

end Outcome

/-- Variables give settings exactly when none of them is faulty and their shares fit the whole.
The settings are then those that the variables hold, with defaults for the others. Otherwise the
first faulty variable is complained about with the value that it is set to, and the shares only
when there is none. That the shares are added as words does not matter. -/
theorem ofLookup_all_or_nothing (lookup : String → Option String) :
    ((∃ s, ofLookup lookup = .ok s) ↔
      (∀ v ∈ readOrder, ∀ raw, ¬v.Faulty lookup raw) ∧ ∃ easy? medium?,
        easyVariable.Holds lookup easy? ∧ mediumVariable.Holds lookup medium? ∧
          easy?.getD 50 + medium?.getD 30 ≤ 100) ∧
      (∀ s, ofLookup lookup = .ok s ↔
        Given lookup s ∧ s.easyPercent.toNat + s.mediumPercent.toNat ≤ 100) ∧
      (∀ name raw, ofLookup lookup = .error (.invalidValue name raw) ↔
        FirstFaulty lookup readOrder name raw) ∧
      (∀ easy medium, ofLookup lookup = .error (.sharesExceedTotal easy medium) ↔
        ∃ s, Given lookup s ∧ s.easyPercent = easy ∧ s.mediumPercent = medium ∧
          100 < easy.toNat + medium.toNat) ∧
      ∀ s : Settings, s.validate = if 100 < saturatedSum s.easyPercent s.mediumPercent then
        .error (.sharesExceedTotal s.easyPercent s.mediumPercent) else .ok s :=
  ⟨exists_ofLookup_iff, fun _ => ofLookup_eq_ok_iff, fun _ _ => ofLookup_eq_invalidValue_iff,
    fun _ _ => ofLookup_eq_sharesExceedTotal_iff, validate_eq⟩

/-- Variables that need trimming, raising and lowering, with shares of one hundred together. -/
def clampedLookup (name : String) : Option String :=
  [(questionsName, " 0\t"), (tierName, "+9"), (easyName, "70")].lookup name

theorem ofLookup_all_or_nothing_clamped :
    ofLookup clampedLookup = .ok ⟨none, 1, .hard, 70, 30⟩ ∧
      Given clampedLookup ⟨none, 1, .hard, 70, 30⟩ := by
  have hread : ofLookup clampedLookup = .ok ⟨none, 1, .hard, 70, 30⟩ := by decide +kernel
  obtain ⟨-, hok, -⟩ := ofLookup_all_or_nothing clampedLookup
  exact ⟨hread, ((hok _).1 hread).1⟩

end TargetQuiz.Settings
