import Lexeme.Proofs.Json.Grammar

/-! Texts in quotes, numbers and words of the grammar are read as what they spell, whatever follows
them; a number only has to be delimited. -/

namespace Lexeme.Json

variable {start i : Nat} {negative : Bool} {c : Char} {cs ds fs body rest tail : List Char}
  {fraction exponent : List Char} {ps : List CodePoint} {e : Int} {v : Json}

/-! ### Texts -/

theorem readPoints_simple {e : Char} (he : simpleEscape? e = some c) :
    readPoints start i ('\\' :: e :: rest) =
      consPoint (.char c) (readPoints start (i + 2) rest) := by
  have hunit : e ≠ 'u' := by
    rintro rfl
    cases he
  rw [readPoints.eq_def]
  split <;> grind

theorem readPoints_plain (hquote : c ≠ '"') (hslash : c ≠ '\\') (hprint : 0x20 ≤ c.toNat) :
    readPoints start i (c :: rest) = consPoint (.char c) (readPoints start (i + 1) rest) := by
  rw [readPoints.eq_def]
  split <;> grind

/-- An escape of one unit that is no part of a pair. -/
theorem readPoints_unit {a b c d : Char} {n : Nat} (hn : unitValue? a b c d = some n)
    (htail : tail ≠ [])
    (hpair : isHighUnit n = true → ∀ e f g h rest, tail = '\\' :: 'u' :: e :: f :: g :: h :: rest →
      ∃ m, unitValue? e f g h = some m ∧ isLowUnit m = false) :
    readPoints start i ('\\' :: 'u' :: a :: b :: c :: d :: tail) =
      consPoint (.ofNat n) (readPoints start (i + 6) tail) := by
  obtain ⟨x, tail, rfl⟩ := List.exists_cons_of_ne_nil htail
  rw [readPoints.eq_def]
  split <;> grind

theorem readPoints_pair {a b c d e f g h : Char} {n m : Nat} (hn : unitValue? a b c d = some n)
    (hhigh : isHighUnit n = true) (hm : unitValue? e f g h = some m) (hlow : isLowUnit m = true)
    (htail : tail ≠ []) :
    readPoints start i
        ('\\' :: 'u' :: a :: b :: c :: d :: '\\' :: 'u' :: e :: f :: g :: h :: tail) =
      consPoint (.char (joinUnits n m)) (readPoints start (i + 12) tail) := by
  obtain ⟨x, tail, rfl⟩ := List.exists_cons_of_ne_nil htail
  rw [readPoints, hn]
  simp only [hhigh, hm, hlow, if_true]

/-- An escape of four digits behind a body that starts no pair is that of another unit. -/
theorem Body.unitValue?_eq_some (hbody : Body body ps) (hlow : ¬ StartsLow body)
    {a b c d : Char} (heq : body ++ '"' :: rest = '\\' :: 'u' :: a :: b :: c :: d :: tail) :
    ∃ m, unitValue? a b c d = some m ∧ isLowUnit m = false := by
  cases hbody with
  | nil => simp at heq
  | plain _ hslash => exact absurd (List.cons.inj heq).1 hslash
  | simple he =>
    simp only [List.cons_append, List.cons.injEq, true_and] at heq
    obtain ⟨rfl, -⟩ := heq
    cases he
  | unit hn =>
    simp only [List.cons_append, List.cons.injEq, true_and] at heq
    obtain ⟨rfl, rfl, rfl, rfl, -⟩ := heq
    exact ⟨_, hn, Bool.eq_false_iff.mpr fun h => hlow ⟨_, _, _, _, _, _, rfl, hn, h⟩⟩
  | pair hn =>
    simp only [List.cons_append, List.cons.injEq, true_and] at heq
    obtain ⟨rfl, rfl, rfl, rfl, -⟩ := heq
    exact ⟨_, hn, Bool.eq_false_iff.mpr fun h => hlow ⟨_, _, _, _, _, _, rfl, hn, h⟩⟩

theorem Body.readPoints_eq (hbody : Body body ps) :
    readPoints start i (body ++ '"' :: rest) = .ok (ps, ⟨i + body.length + 1, rest⟩) := by
  induction hbody generalizing i with
  | nil => rw [List.nil_append, readPoints]; rfl
  | plain hquote hslash hprint _ ih =>
    rw [List.cons_append, readPoints_plain hquote hslash hprint, ih, List.length_cons]
    simp only [consPoint, Except.map, Nat.add_assoc, Nat.add_comm 1]
  | simple he _ ih =>
    rw [List.cons_append, List.cons_append, readPoints_simple he, ih]
    simp only [consPoint, Except.map, List.length_cons]
    grind
  | unit hn hpair hbody ih =>
    simp only [List.cons_append]
    rw [readPoints_unit hn (by simp) fun hhigh _ _ _ _ _ heq =>
      hbody.unitValue?_eq_some (hpair hhigh) heq, ih]
    simp only [consPoint, Except.map, List.length_cons]
    grind
  | pair hn hhigh hm hlow _ ih =>
    simp only [List.cons_append]
    rw [readPoints_pair hn hhigh hm hlow (by simp), ih]
    simp only [consPoint, Except.map, List.length_cons]
    grind

/-! ### Numbers and words -/

/-- What may follow a number without being taken for a part of it. -/
def Delimited (rest : List Char) : Prop :=
  ∀ c ∈ rest.head?, c.isDigit = false ∧ c ∉ ['.', 'e', 'E']

theorem Numeral.split_append (hds : Numeral ds) (hrest : ∀ c ∈ rest.head?, c.isDigit = false) :
    Digits.split (ds ++ rest) = (ds, rest) := Digits.split_of_digits hds.2 hrest

theorem Numeral.exists_cons (hds : Numeral ds) : ∃ d tail, ds = d :: tail ∧ d.isDigit = true := by
  obtain ⟨d, tail, rfl⟩ := List.exists_cons_of_ne_nil hds.1
  exact ⟨d, tail, rfl, hds.2 d List.mem_cons_self⟩

theorem Whole.readInteger?_append (hds : Whole ds) (hrest : ∀ c ∈ rest.head?, c.isDigit = false) :
    readInteger? (ds ++ rest) = some (ds, rest) := by
  have hsplit := hds.1.split_append hrest
  obtain ⟨d, tail, rfl, hd⟩ := hds.1.exists_cons
  by_cases hzero : d = '0'
  · subst hzero
    rw [hds.2 rfl]
    rfl
  · rw [List.cons_append] at hsplit ⊢
    rw [readInteger?.eq_def]
    split <;> grind

theorem Fraction.isEmpty_eq (h : Fraction fraction fs) : fs.isEmpty = fraction.isEmpty := by
  cases h with
  | absent => rfl
  | point hds => simp [hds.1]

theorem Fraction.readFraction_append (h : Fraction fraction fs)
    (hrest : ∀ c ∈ rest.head?, c.isDigit = false ∧ c ≠ '.') :
    readFraction (fraction ++ rest) = (fs, rest) := by
  cases h with
  | absent =>
    rw [List.nil_append, readFraction.eq_def]
    split
    · exact absurd rfl (hrest '.' rfl).2
    · rfl
  | point hds =>
    rw [List.cons_append, readFraction, hds.split_append fun c hc => (hrest c hc).1]
    simp [hds.1]

theorem Fraction.head (h : Fraction fraction fs) (hrest : ∀ c ∈ rest.head?, c.isDigit = false) :
    ∀ c ∈ (fraction ++ rest).head?, c.isDigit = false := by
  cases h with
  | absent => exact hrest
  | point =>
    rintro _ ⟨⟩
    rfl

theorem Exponent.head (h : Exponent exponent e) (hrest : Delimited rest) :
    ∀ c ∈ (exponent ++ rest).head?, c.isDigit = false ∧ c ≠ '.' := by
  cases h with
  | absent => exact fun c hc => ⟨(hrest c hc).1, fun h => (hrest c hc).2 (by simp [h])⟩
  | power hmark =>
    rintro _ ⟨⟩
    rcases hmark with rfl | rfl <;> decide

theorem readExponent?_delimited (hrest : Delimited rest) : readExponent? rest = none := by
  cases rest with
  | nil => rfl
  | cons c rest =>
    have hc := (hrest c rfl).2
    simp only [List.mem_cons, not_or] at hc
    rw [readExponent?, if_neg (not_or.mpr ⟨hc.2.1, hc.2.2.1⟩)]

theorem Numeral.readSign_append (hds : Numeral ds) {sign : List Char}
    (hsign : sign ∈ [[], ['+'], ['-']]) :
    readSign (sign ++ (ds ++ rest)) = (sign == ['-'], ds ++ rest) := by
  simp only [List.mem_cons, List.not_mem_nil, or_false] at hsign
  rcases hsign with rfl | rfl | rfl
  · obtain ⟨d, tail, rfl, hd⟩ := hds.exists_cons
    rw [List.nil_append, readSign.eq_def]
    split <;> simp_all
  · rfl
  · rfl

theorem Exponent.readExponent?_append (h : Exponent exponent e) (hexponent : exponent ≠ [])
    (hrest : ∀ c ∈ rest.head?, c.isDigit = false) :
    readExponent? (exponent ++ rest) = some (e, rest) := by
  cases h with
  | absent => exact absurd rfl hexponent
  | power hmark hsign hds =>
    rw [List.cons_append, List.append_assoc, readExponent?, if_pos hmark,
      hds.readSign_append hsign]
    simp [hds.split_append hrest, hds.1]

theorem Magnitude.readMagnitude_append (h : Magnitude maxIntegerDigits negative cs v)
    (hrest : Delimited rest) (start : Nat) :
    readMagnitude start negative (cs ++ rest) = .ok (v, rest) := by
  cases h with
  | int hds hlimit =>
    have hfraction := Fraction.absent.readFraction_append (Exponent.absent.head hrest)
    rw [readMagnitude, hds.readInteger?_append fun c hc => (hrest c hc).1]
    simp only [List.nil_append] at hfraction
    simp only [hfraction, readExponent?_delimited hrest, List.isEmpty_nil,
      if_neg (Nat.not_lt.mpr hlimit)]
  | @real ds fraction exponent fs e hds hfraction hexponent hreal =>
    have hhead := hexponent.head hrest
    rw [readMagnitude, List.append_assoc, List.append_assoc,
      hds.readInteger?_append (hfraction.head fun c hc => (hhead c hc).1)]
    simp only [hfraction.readFraction_append hhead]
    by_cases hnil : exponent = []
    · -- without an exponent there is a fraction, and the point alone moves
      subst hnil
      cases hexponent
      have hempty : fs.isEmpty = false := by
        rw [hfraction.isEmpty_eq]
        simpa using hreal
      rw [List.nil_append, readExponent?_delimited hrest, hempty, Int.zero_sub]
    · rw [hexponent.readExponent?_append hnil fun c hc => (hrest c hc).1]
      cases fs.isEmpty <;> rfl

theorem Magnitude.exists_cons {limit : Nat} (h : Magnitude limit negative cs v) :
    ∃ d tail, cs = d :: tail ∧ d.isDigit = true := by
  cases h with
  | int hds => exact hds.1.exists_cons
  | real hds =>
    obtain ⟨d, tail, rfl, hd⟩ := hds.1.exists_cons
    exact ⟨d, _, rfl, hd⟩

theorem ne_of_isDigit {d : Char} (hd : d.isDigit = true) (hc : c.isDigit = false) : c ≠ d := by
  rintro rfl
  rw [hc] at hd
  cases hd

/-- No word starts as a number does. -/
theorem find?_words_digit {d : Char} (hd : d.isDigit = true) (negative : Bool) (rest : List Char) :
    (words.find? fun w => w.1.isPrefixOf (minus negative ++ d :: rest)) = none := by
  have hne : ∀ c : Char, c.isDigit = false → (c == d) = false := fun c hc =>
    beq_eq_false_iff_ne.mpr (ne_of_isDigit hd hc)
  cases negative <;> simp [minus, words, List.isPrefixOf, hne]

/-- A number is read up to what delimits it. -/
theorem Magnitude.readScalar_append (h : Magnitude maxIntegerDigits negative cs v)
    (hrest : Delimited rest) (offset : Nat) :
    readScalar ⟨offset, minus negative ++ (cs ++ rest)⟩ =
      .ok (v, ⟨offset + (minus negative ++ cs).length, rest⟩) := by
  have hmagnitude := h.readMagnitude_append hrest offset
  obtain ⟨d, tail, rfl, hd⟩ := h.exists_cons
  have hwords := find?_words_digit hd negative (tail ++ rest)
  have hminus := ne_of_isDigit hd (c := '-') (by decide)
  rw [List.cons_append] at hmagnitude ⊢
  rw [readScalar.eq_def, hwords]
  cases negative <;> grind [minus]

/-- An integer with more digits than are read. -/
theorem Whole.readMagnitude_long (hds : Whole ds) (hlong : maxIntegerDigits < ds.length)
    (hrest : Delimited rest) (start : Nat) :
    readMagnitude start negative (ds ++ rest) = .error (.longInteger ds.length) := by
  have hfraction := Fraction.absent.readFraction_append (Exponent.absent.head hrest)
  rw [readMagnitude, hds.readInteger?_append fun c hc => (hrest c hc).1]
  simp only [List.nil_append] at hfraction
  simp only [hfraction, readExponent?_delimited hrest, List.isEmpty_nil, if_pos hlong]

theorem Whole.readScalar_long (hds : Whole ds) (hlong : maxIntegerDigits < ds.length)
    (hrest : Delimited rest) (offset : Nat) :
    readScalar ⟨offset, ds ++ rest⟩ = .error (.longInteger ds.length) := by
  have hmagnitude : readMagnitude offset false (ds ++ rest) = .error (.longInteger ds.length) :=
    hds.readMagnitude_long hlong hrest offset
  obtain ⟨d, tail, rfl, hd⟩ := hds.1.exists_cons
  have hwords := find?_words_digit hd false (tail ++ rest)
  have hminus := ne_of_isDigit hd (c := '-') (by decide)
  rw [List.cons_append] at hmagnitude ⊢
  rw [readScalar.eq_def]
  grind [minus]

theorem readScalar_word {w : List Char} (hw : (w, v) ∈ words) (offset : Nat) (rest : List Char) :
    readScalar ⟨offset, w ++ rest⟩ = .ok (v, ⟨offset + w.length, rest⟩) := by
  simp only [words, List.mem_cons, Prod.mk.injEq, List.not_mem_nil, or_false] at hw
  rcases hw with ⟨rfl, rfl⟩ | ⟨rfl, rfl⟩ | ⟨rfl, rfl⟩ | ⟨rfl, rfl⟩ | ⟨rfl, rfl⟩ | ⟨rfl, rfl⟩ <;> rfl

end Lexeme.Json
