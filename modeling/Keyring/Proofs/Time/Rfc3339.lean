import Keyring.Proofs.Text.Numeral
import Keyring.Proofs.Text.Words
import Keyring.Proofs.Time.Calendar
import Keyring.Time.Rfc3339

/-!
# Instants there and back

The text of an instant reads back as the instant, its nanoseconds and leap
seconds included.
-/

namespace Keyring.Time.Instant

open Keyring.Text

variable {cs ds rest : List Char} {c : Char} {most low high n : Nat}

theorem isBlank_of_isDigit (digit : isDigit c = true) : isBlank c = false := by
  have bounds := isDigit_iff.mp digit
  simp [isBlank]
  omega

theorem trimLeft_digits (some_ : ds ≠ []) (digits : ∀ d ∈ ds, isDigit d = true) (rest : List Char) :
    trimLeft (ds ++ rest) = ds ++ rest := by
  obtain ⟨d, more, rfl⟩ := List.exists_cons_of_ne_nil some_
  refine trimLeft_eq_self fun c first => ?_
  obtain rfl : d = c := by simpa using first
  exact isBlank_of_isDigit (digits d List.mem_cons_self)

theorem trimLeft_cons (solid : isBlank c = false) (rest : List Char) : trimLeft (c :: rest) = c :: rest :=
  trimLeft_eq_self fun d first => by
    obtain rfl : c = d := by simpa using first
    exact solid

theorem mark?_cons (solid : isBlank c = false) (rest : List Char) : mark? c (c :: rest) = some rest := by
  rw [mark?, trimLeft_cons solid]
  exact if_pos rfl

theorem number?_decimalPadded {width : Nat} (fits : (decimalPadded width n).length ≤ most)
    (stops : (decimalPadded width n).length = most ∨ ∀ c, rest.head? = some c → isDigit c = false)
    (small : n < numberBound) : number? most (decimalPadded width n ++ rest) = some (n, rest) := by
  have digits : ∀ d ∈ decimalPadded width n, isDigit d = true := fun d => isDigit_of_mem_decimalPadded
  have span := spanDigits_append digits fits stops
  simp [number?, span, natOfDigits?_decimalPadded, small]

theorem boundedNumber?_decimalPadded (least : low ≤ n) (greatest : n ≤ high) (two : n < 100) (rest : List Char) :
    boundedNumber? 2 low high (decimalPadded 2 n ++ rest) = some (n, rest) := by
  have long : (decimalPadded 2 n).length = 2 := length_decimalPadded (by decide) two
  have read := @number?_decimalPadded rest 2 n 2 long.le (.inl long) (by rw [numberBound]; norm_num; omega)
  rw [boundedNumber?, trimLeft_digits (decimalPadded_ne_nil 2 n) fun d => isDigit_of_mem_decimalPadded, read]
  simp [least, greatest]

theorem year?_yearText {y : Int} (first : firstYear ≤ y) (last : y ≤ lastYear) (rest : List Char) :
    year? (yearText y ++ '-' :: rest) = some (y, '-' :: rest) := by
  have small : y.natAbs < numberBound := by
    rw [firstYear] at first
    rw [lastYear] at last
    rw [numberBound]
    norm_num
    omega
  rw [yearText]
  split
  · rw [show y.toNat = y.natAbs by omega]
    have long : (decimalPadded 4 y.natAbs).length = 4 :=
      length_decimalPadded (by decide) (show y.natAbs < 10000 by omega)
    have read := @number?_decimalPadded ('-' :: rest) 4 y.natAbs 4 long.le (.inl long) small
    obtain ⟨d, more, shape⟩ := List.exists_cons_of_ne_nil (decimalPadded_ne_nil 4 y.natAbs)
    have digit : isDigit d = true :=
      isDigit_of_mem_decimalPadded (by rw [shape]; exact List.mem_cons_self)
    rw [shape, List.cons_append] at read ⊢
    rw [year?, trimLeft_cons (isBlank_of_isDigit digit)]
    split
    case h_3 =>
      rw [read, Option.map_some]
      dsimp only
      rw [show (y.natAbs : Int) = y by omega]
    all_goals
      rename_i same
      rw [(List.cons.inj same).1] at digit
      cases digit
  · -- after a sign the digits go on up to the mark that follows
    have read : number? (decimalPadded 4 y.natAbs ++ '-' :: rest).length
        (decimalPadded 4 y.natAbs ++ '-' :: rest) = some (y.natAbs, '-' :: rest) :=
      number?_decimalPadded (by simp) (.inr fun c front => by simp at front; subst front; rfl) small
    split
    · rw [year?, List.cons_append, trimLeft_cons rfl]
      show (number? _ _).map _ = _
      rw [read, Option.map_some]
      dsimp only
      rw [show -(y.natAbs : Int) = y by omega]
    · rw [year?, List.cons_append, trimLeft_cons rfl]
      show (number? _ _).map _ = _
      rw [read, Option.map_some]
      dsimp only
      rw [show (y.natAbs : Int) = y by omega]

theorem fraction?_fractionText (small : n < nanosPerSecond) :
    fraction? (fractionText n ++ ['Z']) = some (n, ['Z']) := by
  rw [nanosPerSecond] at small
  -- a fraction of some digits counts as many powers of ten as it leaves out
  have read : ∀ width m, 0 < width → width ≤ 9 → m < 10 ^ width →
      fraction? ('.' :: decimalPadded width m ++ ['Z']) = some (m * 10 ^ (9 - width), ['Z']) := by
    intro width m positive atMost fits
    have long := length_decimalPadded positive fits
    have span : spanDigits 9 (decimalPadded width m ++ ['Z']) = (decimalPadded width m, ['Z']) :=
      spanDigits_append (fun d => isDigit_of_mem_decimalPadded) (by omega)
        (.inr fun c front => by simp at front; subst front; rfl)
    have after : ['Z'].dropWhile isDigit = ['Z'] := rfl
    simp [fraction?, span, natOfDigits?_decimalPadded, long, after]
  rw [fractionText]
  split
  · rename_i zero
    subst zero
    rfl
  · split
    · rw [read 3 (n / 1000000) (by decide) (by decide) (by omega)]
      congr
      omega
    · split
      · rw [read 6 (n / 1000) (by decide) (by decide) (by omega)]
        congr
        omega
      · rw [read 9 n (by decide) (by decide) (by omega)]
        congr
        omega

/-- An instant as it is kept: its day is one that is kept, and a leap second ends a minute. -/
structure IsKept (t : Instant) : Prop where
  inRange : t.InRange
  nano : t.nano < nanosPerSecond ∨ t.nano < 2 * nanosPerSecond ∧ t.secondOfDay % 60 = 59

/-- The text of an instant leads back to it. -/
def ReadsBack (t : Instant) : Prop := ofText? t.text = some t

instance (t : Instant) : Decidable t.ReadsBack := by unfold ReadsBack; infer_instance

theorem rfc3339_eq (t : Instant) : t.rfc3339 = yearText t.date.year ++ '-' ::
    (decimalPadded 2 t.date.month ++ '-' :: (decimalPadded 2 t.date.dayOfMonth ++ 'T' ::
      (decimalPadded 2 (t.secondOfDay / 3600) ++ ':' :: (decimalPadded 2 (t.secondOfDay / 60 % 60) ++ ':' ::
        (decimalPadded 2 (t.secondOfDay % 60 + if t.isLeap then 1 else 0) ++
          (fractionText (t.nano - (if t.isLeap then 1 else 0) * nanosPerSecond) ++ ['Z'])))))) := by
  simp [rfc3339, Date.text]

theorem bind_of_eq_some {α β : Type} {o : Option α} {a : α} {f : α → Option β} (is : o = some a) :
    (o >>= f) = f a := by
  rw [is]
  rfl

/-- What is made of the parts of a text. -/
def ofParts? (date : Date) (hour minute second nano : Nat) : Option Instant :=
  let leap := if second = 60 then 1 else 0
  let t := ofDayAndSecond date.day (hour * 3600 + minute * 60 + second - leap) (nano + leap * nanosPerSecond)
  if t.InRange then some t else none

theorem ofChars?_of_parts {year : Int} {month day hour minute second nano : Nat}
    {afterYear afterMonth afterDay afterHour afterMinute afterSecond monthOn dayOn hourOn minuteOn secondOn : List Char}
    (readYear : year? cs = some (year, afterYear)) (mark₁ : mark? '-' afterYear = some monthOn)
    (readMonth : boundedNumber? 2 1 12 monthOn = some (month, afterMonth)) (mark₂ : mark? '-' afterMonth = some dayOn)
    (readDay : boundedNumber? 2 1 31 dayOn = some (day, afterDay)) (mark₃ : afterDay = 'T' :: hourOn)
    (readHour : boundedNumber? 2 0 23 hourOn = some (hour, afterHour)) (mark₄ : mark? ':' afterHour = some minuteOn)
    (readMinute : boundedNumber? 2 0 59 minuteOn = some (minute, afterMinute))
    (mark₅ : mark? ':' afterMinute = some secondOn)
    (readSecond : boundedNumber? 2 0 60 secondOn = some (second, afterSecond))
    (readNano : fraction? afterSecond = some (nano, ['Z']))
    (valid : (Date.mk year month day).Valid) :
    ofChars? cs = ofParts? ⟨year, month, day⟩ hour minute second nano := by
  subst mark₃
  have utc : offset? (trimLeft ['Z']) = some (0, []) := rfl
  refine (bind_of_eq_some readYear).trans ?_
  refine (bind_of_eq_some mark₁).trans ?_
  refine (bind_of_eq_some readMonth).trans ?_
  refine (bind_of_eq_some mark₂).trans ?_
  refine (bind_of_eq_some readDay).trans ?_
  refine (bind_of_eq_some readHour).trans ?_
  refine (bind_of_eq_some mark₄).trans ?_
  refine (bind_of_eq_some readMinute).trans ?_
  refine (bind_of_eq_some mark₅).trans ?_
  refine (bind_of_eq_some readSecond).trans ?_
  refine (bind_of_eq_some readNano).trans ?_
  refine (bind_of_eq_some utc).trans ?_
  dsimp only
  rw [if_pos ⟨rfl, valid⟩, Int.sub_zero]
  rfl

theorem secondOfDay_lt (t : Instant) : t.secondOfDay < 86400 := by
  rw [secondOfDay, secondsPerDay]
  omega

theorem ofDayAndSecond_self (t : Instant) :
    ofDayAndSecond t.date.day t.secondOfDay t.nano = t := by
  have second : t.date.day * secondsPerDay + t.secondOfDay = t.second := by
    rw [date, Date.day_ofDay, dayNumber, secondOfDay, secondsPerDay]
    omega
  rw [ofDayAndSecond, second]

theorem ofParts?_parts {t : Instant} (kept : t.IsKept) {leap : Nat} (leapIs : leap = if t.isLeap then 1 else 0) :
    ofParts? t.date (t.secondOfDay / 3600) (t.secondOfDay / 60 % 60) (t.secondOfDay % 60 + leap)
      (t.nano - leap * nanosPerSecond) = some t := by
  -- the sixtieth second is written for a leap second, and for nothing else
  have sixty : (if t.secondOfDay % 60 + leap = 60 then 1 else 0) = leap := by
    have nano := kept.nano
    rw [isLeap, nanosPerSecond] at leapIs
    rw [nanosPerSecond] at nano
    by_cases large : 1000000000 ≤ t.nano
    · rw [if_pos (by simpa using large)] at leapIs
      rw [if_pos (by omega), leapIs]
    · rw [if_neg (by simpa using large)] at leapIs
      rw [if_neg (by omega), leapIs]
  have seconds : t.secondOfDay / 3600 * 3600 + t.secondOfDay / 60 % 60 * 60 + (t.secondOfDay % 60 + leap) - leap =
      t.secondOfDay := by omega
  have nanos : t.nano - leap * nanosPerSecond + leap * nanosPerSecond = t.nano := by
    rw [isLeap] at leapIs
    split at leapIs
    · rename_i large
      have : nanosPerSecond ≤ t.nano := by simpa using large
      rw [leapIs]
      omega
    · rw [leapIs]
      omega
  rw [ofParts?, sixty, seconds, nanos, ofDayAndSecond_self, if_pos kept.inRange]

theorem readsBack_of_isKept {t : Instant} (kept : t.IsKept) : t.ReadsBack := by
  have valid : t.date.Valid := Date.valid_ofDay kept.inRange.1 kept.inRange.2
  obtain ⟨yearFirst, yearLast, monthFirst, monthLast, dayFirst, dayLast⟩ := valid
  have days : daysInMonth t.date.year t.date.month ≤ 31 := by
    rw [daysInMonth.eq_def]
    split
    · split <;> omega
    all_goals omega
  have seconds := t.secondOfDay_lt
  obtain ⟨leap, leapIs⟩ : ∃ leap, leap = if t.isLeap then 1 else 0 := ⟨_, rfl⟩
  have leapLe : leap ≤ 1 := by
    rw [leapIs]
    split <;> omega
  have fraction : t.nano - leap * nanosPerSecond < nanosPerSecond := by
    have nano := kept.nano
    rw [isLeap] at leapIs
    split at leapIs
    · rw [leapIs]
      have : 0 < nanosPerSecond := by decide
      omega
    · rename_i small
      have : ¬nanosPerSecond ≤ t.nano := by simpa using small
      omega
  rw [ReadsBack, text, ofText?, String.toList_ofList, rfc3339_eq, ← leapIs]
  refine (ofChars?_of_parts (year?_yearText yearFirst yearLast _) (mark?_cons rfl _)
    (boundedNumber?_decimalPadded monthFirst monthLast (by omega) _) (mark?_cons rfl _)
    (boundedNumber?_decimalPadded dayFirst (by omega) (by omega) _) rfl
    (boundedNumber?_decimalPadded (by omega) (by omega) (by omega) _) (mark?_cons rfl _)
    (boundedNumber?_decimalPadded (by omega) (by omega) (by omega) _) (mark?_cons rfl _)
    (boundedNumber?_decimalPadded (by omega) (by omega) (by omega) _)
    (fraction?_fractionText fraction) (Date.valid_ofDay kept.inRange.1 kept.inRange.2)).trans ?_
  exact ofParts?_parts kept leapIs

end Keyring.Time.Instant
