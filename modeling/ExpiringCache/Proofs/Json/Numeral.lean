import ExpiringCache.Json.Record

/-! # Whole numbers are read as they were written

    A whole number that fits a signed word is written as its decimal digits,
    with a sign before them if it is negative.  Who reads on from there gets
    the number back, provided that what stands behind the digits does not
    carry the numeral on. -/

namespace ExpiringCache.Json

namespace Numeral

/-- What stands behind a numeral does not carry it on: it begins neither with
    a digit nor with a point or an exponent. -/
def Ends (rest : List Char) : Prop :=
  ∀ c, rest.head? = some c → isDigit c = false ∧ c ≠ '.' ∧ c ≠ 'e' ∧ c ≠ 'E'

/-- The digits of a number are digits. -/
theorem isDigit_of_mem_toDigits {n : Nat} {c : Char} (h : c ∈ Nat.toDigits 10 n) :
    isDigit c = true := by
  have hdigit := Nat.isDigit_of_mem_toDigits (by decide) (by decide) h
  simp only [Char.isDigit, Bool.and_eq_true, decide_eq_true_eq] at hdigit
  simp only [isDigit, Bool.and_eq_true, decide_eq_true_eq]
  exact hdigit

/-- No number but zero begins with a zero. -/
theorem head?_toDigits {n : Nat} (hn : 0 < n) : (Nat.toDigits 10 n).head? ≠ some '0' := by
  induction n using Nat.strongRecOn with
  | ind n ih =>
      rw [Nat.toDigits_eq_if (by decide)]
      split
      · rename_i hsmall
        have hdigits : ∀ m < 10, 0 < m → some m.digitChar ≠ some '0' := by decide
        exact hdigits n hsmall hn
      · rename_i hgreat
        have hless := ih (n / 10) (by omega) (by omega)
        rw [List.head?_append]
        cases hhead : (Nat.toDigits 10 (n / 10)).head? with
        | none => exact absurd (List.head?_eq_none_iff.mp hhead) Nat.toDigits_ne_nil
        | some c =>
            rw [hhead] at hless
            exact hless

/-- The value of the digits of a number is the number. -/
theorem natValue_toDigits (n : Nat) :
    natValue ((Nat.toDigits 10 n).map digitValue) = n := by
  have hvalue : ∀ (cs : List Char) (start : Nat),
      (cs.map digitValue).foldl (fun n d => n * 10 + d) start = Nat.ofDigitChars 10 cs start := by
    intro cs
    induction cs with
    | nil => exact fun _ => rfl
    | cons c cs ih =>
        intro start
        rw [List.map_cons, List.foldl_cons, ih, Nat.ofDigitChars_cons, Nat.mul_comm]
        rfl
  rw [natValue, hvalue]
  exact Nat.ofDigitChars_toDigits (by decide) (by decide)

variable {rest : List Char}

/-- The digits of a number are read up to their end. -/
theorem digits_toDigits (n : Nat) (hrest : Ends rest) :
    digits (Nat.toDigits 10 n ++ rest) = ((Nat.toDigits 10 n).map digitValue, rest) := by
  have hdigits : ∀ c ∈ Nat.toDigits 10 n, isDigit c = true :=
    fun _ hmem => isDigit_of_mem_toDigits hmem
  rw [digits, List.takeWhile_append_of_pos hdigits, List.dropWhile_append_of_pos hdigits]
  cases rest with
  | nil => rw [List.takeWhile_nil, List.append_nil, List.dropWhile_nil]
  | cons c rest =>
      have hc := (hrest c rfl).1
      rw [List.takeWhile_cons_of_neg (by rw [hc]; decide), List.append_nil,
        List.dropWhile_cons_of_neg (by rw [hc]; decide)]

/-- A number is read before a point, in digits of which the first is zero only
    if the number is. -/
theorem readWhole_toDigits (n : Nat) (hrest : Ends rest) :
    readWhole (Nat.toDigits 10 n ++ rest) = .ok ((Nat.toDigits 10 n).map digitValue, rest) := by
  rcases Nat.eq_zero_or_pos n with rfl | hn
  · have hzero : Nat.toDigits 10 0 = ['0'] := by decide
    rw [hzero]
    cases rest with
    | nil => rfl
    | cons c rest =>
        show (if isDigit c then _ else Except.ok ([0], c :: rest)) = _
        rw [(hrest c rfl).1]
        rfl
  · rw [← digits_toDigits n hrest]
    have hhead := head?_toDigits hn
    have hdigit := fun c => @isDigit_of_mem_toDigits n c
    cases hds : Nat.toDigits 10 n with
    | nil => exact absurd hds Nat.toDigits_ne_nil
    | cons d ds =>
        rw [hds] at hhead hdigit
        have hd : d ≠ '0' := fun h => hhead (congrArg some h)
        rw [List.cons_append, readWhole]
        · exact if_pos (hdigit d List.mem_cons_self)
        · exact hd

/-- A whole numeral has neither a fraction nor an exponent. -/
theorem read_toDigits (negative : Bool) (n : Nat) (hrest : Ends rest) :
    read negative (Nat.toDigits 10 n ++ rest) =
      .ok (⟨negative, (Nat.toDigits 10 n).map digitValue, none, none⟩, rest) := by
  have hfraction : readFraction rest = .ok (none, rest) := by
    cases rest with
    | nil => rfl
    | cons c rest =>
        rw [readFraction]
        rintro more ⟨⟩
        exact (hrest '.' rfl).2.1 rfl
  have hexponent : readExponent rest = .ok (none, rest) := by
    cases rest with
    | nil => rfl
    | cons c rest =>
        obtain ⟨-, -, he, hE⟩ := hrest c rfl
        show (if c = 'e' || c = 'E' then _ else Except.ok (none, c :: rest)) = _
        rw [if_neg (by simp [he, hE])]
  simp only [read, readWhole_toDigits n hrest, hfraction, hexponent, bind, Except.bind, pure,
    Except.pure]

/-- What is read of the digits of a number, with its sign before them, stands
    for the number. -/
theorem value?_toDigits {i : Int} (hi : Word.Fits i) :
    (⟨decide (i < 0), (Nat.toDigits 10 i.natAbs).map digitValue, none, none⟩ :
      Numeral).value? = some (.whole i) := by
  obtain ⟨hleast, hgreatest⟩ := hi
  simp only [value?, natValue_toDigits, decide_eq_true_eq]
  split
  · rename_i hneg
    have habs : -(i.natAbs : Int) = i := by omega
    have hpos : 0 < i.natAbs := by omega
    rw [habs, if_pos (by simp [hpos, hleast])]
  · rename_i hnonneg
    have habs : (i.natAbs : Int) = i := by omega
    have hsmall : i.natAbs ≤ Word.greatestUnsigned := by
      unfold Word.greatest at hgreatest
      unfold Word.greatestUnsigned
      omega
    rw [if_pos hsmall, habs]

end Numeral

variable {i : Int} {rest : List Char}

/-- A number is read from its digits. -/
theorem readNumber_toDigits (hi : Word.Fits i) (hrest : Numeral.Ends rest) :
    readNumber (decide (i < 0)) (Nat.toDigits 10 i.natAbs ++ rest) = .ok (.whole i, rest) := by
  simp only [readNumber, Numeral.read_toDigits _ _ hrest, Numeral.value?_toDigits hi, bind,
    Except.bind, pure, Except.pure]

/-- The text of a number is its digits, with a sign before them if it is
    negative. -/
theorem toList_toString (i : Int) :
    (toString i).toList =
      if i < 0 then '-' :: Nat.toDigits 10 i.natAbs else Nat.toDigits 10 i.natAbs := by
  rw [Int.toString_eq_repr, Int.repr_eq_if]
  split
  · rename_i hnonneg
    rw [if_neg (by omega), Nat.repr_eq_ofList_toDigits, String.toList_ofList]
    congr 1
    omega
  · rename_i hneg
    have habs : (-i).toNat = i.natAbs := by omega
    rw [if_pos (by omega), Nat.repr_eq_ofList_toDigits, habs]
    simp

/-- The text of a number begins with a sign or a digit, by which the reader
    knows that a number comes. -/
theorem readScalar_toString (hi : Word.Fits i) (hrest : Numeral.Ends rest) :
    ∃ c more, (toString i).toList ++ rest = c :: more ∧
      (c = '-' ∨ Numeral.isDigit c = true) ∧
        readScalar c more = .ok (.number (.whole i), rest) := by
  have hread := readNumber_toDigits hi hrest
  rw [toList_toString]
  split
  · rename_i hneg
    rw [decide_eq_true hneg] at hread
    refine ⟨'-', Nat.toDigits 10 i.natAbs ++ rest, rfl, .inl rfl, ?_⟩
    show (readNumber true _).map _ = _
    rw [hread]
    rfl
  · rename_i hnonneg
    rw [decide_eq_false hnonneg] at hread
    cases hds : Nat.toDigits 10 i.natAbs with
    | nil => exact absurd hds Nat.toDigits_ne_nil
    | cons d ds =>
        have hd : Numeral.isDigit d = true :=
          Numeral.isDigit_of_mem_toDigits (hds ▸ List.mem_cons_self)
        refine ⟨d, ds ++ rest, rfl, .inr hd, ?_⟩
        -- no other kind of value begins with a digit
        have hother : ∀ c, Numeral.isDigit c = false → d ≠ c := fun c hc h => by
          rw [h, hc] at hd
          cases hd
        rw [hds, List.cons_append] at hread
        rw [readScalar, if_neg (hother 'n' rfl), if_neg (hother 't' rfl), if_neg (hother 'f' rfl),
          if_neg (hother '"' rfl), if_neg (hother '-' rfl), if_pos hd, hread]
        rfl

/-- Neither a sign nor a digit is a blank, nor do they begin a word. -/
theorem begins_number {c : Char} (hc : c = '-' ∨ Numeral.isDigit c = true) :
    isBlank c = false ∧ c ≠ 'n' ∧ c ≠ '[' ∧ c ≠ '{' := by
  have hother : ∀ d, d ≠ '-' → Numeral.isDigit d = false → c ≠ d := by
    rintro d hsign hdigit rfl
    rcases hc with rfl | hc
    · exact hsign rfl
    · rw [hc] at hdigit
      cases hdigit
  refine ⟨?_, hother 'n' (by decide) rfl, hother '[' (by decide) rfl,
    hother '{' (by decide) rfl⟩
  simp [isBlank, hother ' ' (by decide) rfl, hother '\n' (by decide) rfl,
    hother '\t' (by decide) rfl, hother '\r' (by decide) rfl]

/-- Who reads the text of a number that fits a word gets the number, and what
    stands behind it remains. -/
theorem readWhole_toString (hi : Word.Fits i) (hrest : Numeral.Ends rest) :
    readWhole ((toString i).toList ++ rest) = .ok (i, rest) := by
  obtain ⟨c, more, htext, hc, hscalar⟩ := readScalar_toString hi hrest
  have hblank : ¬isBlank c = true := by
    rw [(begins_number hc).1]
    decide
  rw [htext, readWhole, skipBlanks, List.dropWhile_cons_of_neg hblank]
  simp only [hscalar, if_pos hi]

/-- So does who would also read `null`. -/
theorem readWholeOrNull_toString (hi : Word.Fits i) (hrest : Numeral.Ends rest) :
    readWholeOrNull ((toString i).toList ++ rest) = .ok (some i, rest) := by
  have hwhole := readWhole_toString hi hrest
  obtain ⟨c, more, htext, hc, -⟩ := readScalar_toString hi hrest
  obtain ⟨hblank, hword, -⟩ := begins_number hc
  have hskipped : skipBlanks (c :: more) = c :: more :=
    List.dropWhile_cons_of_neg (by rw [hblank]; decide)
  rw [htext] at hwhole ⊢
  rw [readWholeOrNull, hskipped]
  split
  · rename_i hn
    exact absurd (List.cons.inj hn).1 hword
  · rw [hwhole]
    rfl

/-- A number stands for itself among the values, however deep. -/
theorem readValue_toString (depth : Nat) (hi : Word.Fits i) (hrest : Numeral.Ends rest) :
    readValue depth ((toString i).toList ++ rest) = .ok (.number (.whole i), rest) := by
  obtain ⟨c, more, htext, hc, hscalar⟩ := readScalar_toString hi hrest
  obtain ⟨hblank, -, hlist, hobject⟩ := begins_number hc
  have hskipped : skipBlanks (c :: more) = c :: more :=
    List.dropWhile_cons_of_neg (by rw [hblank]; decide)
  rw [htext, readValue, hskipped]
  simp only [if_neg hlist, if_neg hobject, hscalar]

end ExpiringCache.Json
