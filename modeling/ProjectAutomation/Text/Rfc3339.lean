import Mathlib.Computability.RegularExpressions

/-!
# Date and time texts

The `date-time` of RFC 3339: its digits and signs as regular expressions, from the rules of the
grammar, and the bounds of its numbers in the calendar.

* `allLetters_of_mem`: a word holds only characters its expression names.
* `Rfc3339.shaped`: a date and a time with any one character between them.
* `Rfc3339.separated`: those whose numbers are in the calendar.
* `Rfc3339.dateTime`: the texts of the format, in which that is a `T`.
* `Rfc3339.mem_shaped`: any other character of such a text is the one between date and time.
-/

namespace Text

open RegularExpression

variable {α : Type} {p : α → Bool} {P : RegularExpression α} {word : List α}

/-! ## The characters of an expression -/

/-- Every character the expression names passes `p`. -/
def allLetters (p : α → Bool) : RegularExpression α → Bool
  | .zero | .epsilon => true
  | .char a => p a
  | .plus P Q | .comp P Q => allLetters p P && allLetters p Q
  | .star P => allLetters p P

/-- **So does every character of its words.** -/
theorem allLetters_of_mem (hp : allLetters p P = true) (hword : word ∈ P.matches') : ∀ a ∈ word, p a = true := by
  induction P generalizing word with
  | zero => exact absurd hword (Language.notMem_zero word)
  | epsilon =>
    have hnil : word = [] := (Language.mem_one word).1 hword
    simp [hnil]
  | char a =>
    have hone : word = [a] := hword
    have hpa : p a = true := hp
    simpa [hone] using hpa
  | plus P Q ihP ihQ =>
    obtain ⟨hP, hQ⟩ := Bool.and_eq_true_iff.1 hp
    rcases hword with h | h
    · exact ihP hP h
    · exact ihQ hQ h
  | comp P Q ihP ihQ =>
    obtain ⟨hP, hQ⟩ := Bool.and_eq_true_iff.1 hp
    obtain ⟨front, hfront, back, hback, rfl⟩ := Language.mem_mul.1 hword
    intro a ha
    rcases List.mem_append.1 ha with ha | ha
    · exact ihP hP hfront a ha
    · exact ihQ hQ hback a ha
  | star P ih =>
    obtain ⟨words, rfl, hwords⟩ := Language.mem_kstar.1 hword
    intro a ha
    obtain ⟨one, hone, ha⟩ := List.mem_flatten.1 ha
    exact ih hp (hwords one hone) a ha

/-- One of a few characters. -/
def oneOf (cs : List Char) : RegularExpression Char := cs.foldr (fun c P => char c + P) 0

/-! ## The format -/

namespace Rfc3339

def digit : RegularExpression Char := oneOf ['0', '1', '2', '3', '4', '5', '6', '7', '8', '9']

/-- `full-date`. -/
def fullDate : RegularExpression Char := digit ^ 4 * char '-' * digit ^ 2 * char '-' * digit ^ 2

/-- `partial-time`, with or without `time-secfrac`. -/
def partialTime : RegularExpression Char :=
  digit ^ 2 * char ':' * digit ^ 2 * char ':' * digit ^ 2 * (1 + char '.' * digit * star digit)

/-- `time-offset`. -/
def timeOffset : RegularExpression Char :=
  oneOf ['Z', 'z'] + oneOf ['+', '-'] * digit ^ 2 * char ':' * digit ^ 2

/-- `full-time`. -/
def fullTime : RegularExpression Char := partialTime * timeOffset

/-! ### Its numbers -/

/-- The number of some digits, from a place on. -/
def number (word : List Char) (place digits : ℕ) : ℕ :=
  ((word.drop place).take digits).foldl (fun n c => 10 * n + (c.toNat - '0'.toNat)) 0

/-- The days of a month. -/
def daysIn (year month : ℕ) : ℕ :=
  if month = 2 then if year % 4 = 0 ∧ (year % 100 ≠ 0 ∨ year % 400 = 0) then 29 else 28
  else if month ∈ [4, 6, 9, 11] then 30 else 31

/-- The hours and the minutes of the offset, which end the text, and its sign; `Z` is none. -/
def offset (word : List Char) : ℤ × ℕ × ℕ :=
  let place := word.length - 6
  if word.getLast? = some 'Z' ∨ word.getLast? = some 'z' then (1, 0, 0)
  else (if word[place]? = some '-' then -1 else 1, number word (place + 1) 2, number word (place + 4) 2)

/-- The numbers are those of a calendar and a clock. A minute has a second 60 where it is the last one of a month
at UTC; day 0 is the last of the month before. -/
def bounded (word : List Char) : Bool :=
  let days := daysIn (number word 0 4) (number word 5 2)
  let (month, day) := (number word 5 2, number word 8 2)
  let (hour, minute, second) := (number word 11 2, number word 14 2, number word 17 2)
  let (sign, offsetHour, offsetMinute) := offset word
  let utc : ℤ := 60 * hour + minute - sign * (60 * offsetHour + offsetMinute)
  let endsMonth := utc % 1440 = 1439 ∧ ((day : ℤ) + utc / 1440 = days ∨ (day : ℤ) + utc / 1440 = 0)
  (1 ≤ month ∧ month ≤ 12) ∧ (1 ≤ day ∧ day ≤ days) ∧ hour ≤ 23 ∧ minute ≤ 59 ∧
    (second ≤ 59 ∨ second = 60 ∧ endsMonth) ∧ offsetHour ≤ 23 ∧ offsetMinute ≤ 59

/-! ### Its texts -/

/-- The character between the date and the time. -/
def separator (word : List Char) : Option Char := word[10]?

/-- A date and a time as the grammar has them, with any one character between them. -/
def shaped (word : List Char) : Bool := fullDate.rmatch (word.take 10) && fullTime.rmatch (word.drop 11)

/-- Their numbers are in the calendar. -/
def separated (word : List Char) : Bool := shaped word && bounded word

/-- That is a `T`, in either case. -/
def marked (word : List Char) : Bool := separator word == some 'T' || separator word == some 't'

/-- `date-time`. -/
def dateTime (word : List Char) : Bool := separated word && marked word

theorem separated_of_dateTime {word : List Char} (h : dateTime word = true) : separated word = true :=
  (Bool.and_eq_true_iff.1 h).1

theorem shaped_of_separated {word : List Char} (h : separated word = true) : shaped word = true :=
  (Bool.and_eq_true_iff.1 h).1

/-- **Digits and signs are all there is in a date and a time.** -/
theorem mem_shaped {word : List Char} {c : Char} (hdate : allLetters (fun a => a != c) fullDate = true)
    (htime : allLetters (fun a => a != c) fullTime = true) (h : shaped word = true) :
    c ∈ word ↔ separator word = some c := by
  obtain ⟨hd, ht⟩ := Bool.and_eq_true_iff.1 h
  have hnotDate : c ∉ word.take 10 := fun hc => by
    simpa using allLetters_of_mem hdate ((rmatch_iff_matches' _ _).1 hd) c hc
  have hnotTime : c ∉ word.drop 11 := fun hc => by
    simpa using allLetters_of_mem htime ((rmatch_iff_matches' _ _).1 ht) c hc
  refine ⟨fun hc => ?_, fun hc => List.mem_of_getElem? hc⟩
  obtain ⟨i, hi⟩ := List.mem_iff_getElem?.1 hc
  rcases lt_trichotomy i 10 with hlt | rfl | hgt
  · have hfront : (word.take 10)[i]? = some c := by rwa [List.getElem?_take_of_lt hlt]
    exact absurd (List.mem_of_getElem? hfront) hnotDate
  · exact hi
  · have hback : (word.drop 11)[i - 11]? = some c := by rwa [List.getElem?_drop, Nat.add_sub_cancel' hgt]
    exact absurd (List.mem_of_getElem? hback) hnotTime

example : dateTime "1985-04-12T23:20:50.52Z".toList = true ∧ dateTime "1996-12-19T16:39:57-08:00".toList = true ∧
    dateTime "1990-12-31T15:59:60-08:00".toList = true ∧ dateTime "1990-12-31T23:59:60-08:00".toList = false ∧
    dateTime "2030-02-29T00:00:00Z".toList = false ∧ dateTime "2030-01-01X00:00:00Z".toList = false ∧
    separated "2030-01-01X00:00:00Z".toList = true := by decide

end Rfc3339

end Text
