import Stencil.Text.Digits
/-
  Dates and times in TOML: `1979-05-27T07:32:00.5-07:00` and its parts. A date that is not in the
  calendar is refused.
-/

namespace Stencil.Toml

structure Date where
  year : Nat
  month : Nat
  day : Nat
deriving DecidableEq, Repr

structure Time where
  hour : Nat
  minute : Nat
  second : Option Nat
  /-- The digits after the point, at most nine of them. -/
  fraction : Option (List Char)
deriving DecidableEq, Repr

/-- How far a time is ahead of universal time. -/
inductive Offset where
  | zulu
  | minutes (n : Int)
deriving DecidableEq, Repr

/-- A date, a time, or both; only both together can have an offset. -/
inductive Datetime where
  | date (d : Date)
  | time (t : Time)
  | both (d : Date) (t : Time) (offset : Option Offset)
deriving DecidableEq, Repr

/-! ## The calendar -/

def isLeapYear (year : Nat) : Bool := year % 4 == 0 && (year % 100 != 0 || year % 400 == 0)

def daysIn (year month : Nat) : Nat :=
  if month = 2 then if isLeapYear year then 29 else 28
  else if month = 4 ∨ month = 6 ∨ month = 9 ∨ month = 11 then 30
  else 31

def Date.isValid (d : Date) : Bool :=
  1 ≤ d.month && d.month ≤ 12 && 1 ≤ d.day && d.day ≤ daysIn d.year d.month

/-- A minute may have a leap second. -/
def Time.isValid (t : Time) : Bool :=
  t.hour ≤ 23 && t.minute ≤ 59 && (t.second.getD 0) ≤ 60

/-! ## Reading -/

open Digits (fixed?)

def Date.read? (cs : List Char) : Option (Date × List Char) := do
  let (year, cs) ← fixed? 10 4 cs
  let '-' :: cs := cs | none
  let (month, cs) ← fixed? 10 2 cs
  let '-' :: cs := cs | none
  let (day, cs) ← fixed? 10 2 cs
  let d : Date := ⟨year, month, day⟩
  if d.isValid then return (d, cs) else none

/-- The digits after a point. -/
def fraction? (cs : List Char) : Option (Option (List Char) × List Char) :=
  match cs with
  | '.' :: rest =>
    let digits := rest.takeWhile Char.isDigit
    if digits.isEmpty then none else some (some (digits.take 9), rest.dropWhile Char.isDigit)
  | cs => some (none, cs)

/-- Seconds may be left out, and then there is no fraction either. -/
def Time.read? (cs : List Char) : Option (Time × List Char) := do
  let (hour, cs) ← fixed? 10 2 cs
  let ':' :: cs := cs | none
  let (minute, cs) ← fixed? 10 2 cs
  let (t, cs) ← match cs with
    | ':' :: cs => do
      let (second, cs) ← fixed? 10 2 cs
      let (fraction, cs) ← fraction? cs
      some (Time.mk hour minute (some second) fraction, cs)
    | cs => some (Time.mk hour minute none none, cs)
  if t.isValid then return (t, cs) else none

/-- An offset of less than a day, or none at the end of the text. -/
def Offset.read? (cs : List Char) : Option (Option Offset) :=
  match cs with
  | [] => some none
  | ['Z'] | ['z'] => some (some .zulu)
  | sign :: cs => do
    if sign ≠ '+' ∧ sign ≠ '-' then none
    let (hours, cs) ← fixed? 10 2 cs
    let ':' :: cs := cs | none
    let (extra, []) ← fixed? 10 2 cs | none
    if 23 < hours ∨ 59 < extra then none
    let total := 60 * hours + extra
    return some (.minutes (if sign = '-' then -total else total))

def Datetime.ofChars? (cs : List Char) : Option Datetime :=
  match Date.read? cs with
  | some (d, []) => some (.date d)
  | some (d, c :: cs) =>
    if c = 'T' ∨ c = 't' ∨ c = ' ' then do
      let (t, cs) ← Time.read? cs
      return .both d t (← Offset.read? cs)
    else none
  | none =>
    match Time.read? cs with
    | some (t, []) => some (.time t)
    | _ => none

/-! ## Writing -/

/-- A number with at least `width` digits. -/
def padded (width n : Nat) : String :=
  let digits := toString n
  "".pushn '0' (width - digits.length) ++ digits

def Date.text (d : Date) : String :=
  padded 4 d.year ++ "-" ++ padded 2 d.month ++ "-" ++ padded 2 d.day

/-- Trailing zeros of a fraction are not written, but one digit always is. -/
def fractionText (digits : List Char) : String :=
  match (digits.reverse.dropWhile (· == '0')).reverse with
  | [] => ".0"
  | ds => "." ++ String.ofList ds

def Time.text (t : Time) : String :=
  padded 2 t.hour ++ ":" ++ padded 2 t.minute ++
    (match t.second with
      | some s => ":" ++ padded 2 s
      | none => "") ++
    (match t.fraction with
      | some digits => fractionText digits
      | none => "")

def Offset.text : Offset → String
  | .zulu => "Z"
  | .minutes n =>
    (if n < 0 then "-" else "+") ++ padded 2 (n.natAbs / 60) ++ ":" ++ padded 2 (n.natAbs % 60)

def Datetime.text : Datetime → String
  | .date d => d.text
  | .time t => t.text
  | .both d t offset => d.text ++ "T" ++ t.text ++ (offset.map Offset.text).getD ""

end Stencil.Toml
