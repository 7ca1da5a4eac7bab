import Mathlib

set_option autoImplicit false

namespace Quoted

def tab : UInt8 := 9
def newline : UInt8 := 10
def carriage : UInt8 := 13
def space : UInt8 := 32
def quote : UInt8 := 34
def comma : UInt8 := 44
def dash : UInt8 := 45
def colon : UInt8 := 58
def openBracket : UInt8 := 91
def backslash : UInt8 := 92
def closeBracket : UInt8 := 93
def letterU : UInt8 := 117
def openBrace : UInt8 := 123
def closeBrace : UInt8 := 125

/-- Text is split into its double-quoted strings and the bytes outside them. -/
inductive Token
  | str (s : List UInt8)
  | byte (b : UInt8)
deriving DecidableEq

inductive Lexer
  | outside
  -- in a string, with what has been read of it
  | inside (read : List UInt8)
  | escape (read : List UInt8)
  | unicode (read : List UInt8) (digits code : Nat)
deriving DecidableEq

-- the escapes of one letter: quote, backslash, slash and b, f, n, r, t
def unescape (b : UInt8) : Option UInt8 :=
  if b = quote then some quote
  else if b = backslash then some backslash
  else if b = 47 then some 47
  else if b = 98 then some 8
  else if b = 102 then some 12
  else if b = 110 then some newline
  else if b = 114 then some carriage
  else if b = 116 then some tab
  else none

def hexValue (b : UInt8) : Option Nat :=
  if 48 ≤ b ∧ b ≤ 57 then some (b.toNat - 48)
  else if 97 ≤ b ∧ b ≤ 102 then some (b.toNat - 87)
  else if 65 ≤ b ∧ b ≤ 70 then some (b.toNat - 55)
  else none

-- A four-digit escape stands for one byte, so its code is below 0x80. Control bytes must be
-- escaped, and bytes from 0x80 on are taken as they are.
def step : Lexer → UInt8 → Option (Lexer × List Token)
  | .outside, b => if b = quote then some (.inside [], []) else some (.outside, [.byte b])
  | .inside read, b =>
      if b = quote then some (.outside, [.str read])
      else if b = backslash then some (.escape read, [])
      else if b < 0x20 then none
      else some (.inside (read ++ [b]), [])
  | .escape read, b =>
      if b = letterU then some (.unicode read 0 0, [])
      else (unescape b).map fun byte => (.inside (read ++ [byte]), [])
  | .unicode read digits code, b =>
      (hexValue b).bind fun digit =>
        if digits < 3 then some (.unicode read (digits + 1) (16 * code + digit), [])
        else if 16 * code + digit < 0x80 then
          some (.inside (read ++ [UInt8.ofNat (16 * code + digit)]), [])
        else none

def lex : Lexer → List UInt8 → Option (List Token)
  | .outside, [] => some []
  | _, [] => none
  | state, b :: rest =>
      (step state b).bind fun stepped => (lex stepped.1 rest).map fun tokens => stepped.2 ++ tokens

/-- From one state to another the text gives the tokens, whatever follows it. -/
def Scans (before : Lexer) (text : List UInt8) (tokens : List Token) (after : Lexer) : Prop :=
  ∀ rest, lex before (text ++ rest) = (lex after rest).map fun more => tokens ++ more

theorem Scans.nil (state : Lexer) : Scans state [] [] state := by
  intro rest
  simp

theorem Scans.append {first second third : Lexer} {left right : List UInt8}
    {leftTokens rightTokens : List Token} (scanned : Scans first left leftTokens second)
    (next : Scans second right rightTokens third) :
    Scans first (left ++ right) (leftTokens ++ rightTokens) third := by
  intro rest
  rw [List.append_assoc, scanned, next, Option.map_map]
  simp [Function.comp_def]

theorem Scans.byte {before after : Lexer} {b : UInt8} {tokens : List Token}
    (stepped : step before b = some (after, tokens)) : Scans before [b] tokens after := by
  intro rest
  cases before <;> simp [lex, stepped]

theorem Scans.cons {before middle after : Lexer} {b : UInt8} {text : List UInt8}
    {first tokens : List Token} (stepped : step before b = some (middle, first))
    (next : Scans middle text tokens after) :
    Scans before (b :: text) (first ++ tokens) after :=
  (Scans.byte stepped).append next

theorem Scans.outside {b : UInt8} (plain : b ≠ quote) :
    Scans .outside [b] [.byte b] .outside := by
  apply Scans.byte
  rw [step, if_neg plain]

theorem Scans.replicate {b : UInt8} (plain : b ≠ quote) (n : Nat) :
    Scans .outside (List.replicate n b) (List.replicate n (.byte b)) .outside := by
  induction n with
  | zero => exact Scans.nil .outside
  | succ n ih => exact (Scans.outside plain).append ih

/-- An encoding of bytes that is read back inside a string. -/
def Encodes (encode : UInt8 → List UInt8) (b : UInt8) : Prop :=
  ∀ read, Scans (.inside read) (encode b) [] (.inside (read ++ [b]))

theorem Scans.body {encode : UInt8 → List UInt8} (s : List UInt8)
    (encodes : ∀ b ∈ s, Encodes encode b) (read : List UInt8) :
    Scans (.inside read) (s.flatMap encode) [] (.inside (read ++ s)) := by
  induction s generalizing read with
  | nil =>
    rw [List.append_nil]
    exact Scans.nil (.inside read)
  | cons b s ih =>
    have first := encodes b List.mem_cons_self read
    have rest := ih (fun other member => encodes other (List.mem_cons_of_mem b member)) (read ++ [b])
    rw [List.append_assoc] at rest
    exact first.append rest

theorem Scans.string {encode : UInt8 → List UInt8} (s : List UInt8)
    (encodes : ∀ b ∈ s, Encodes encode b) :
    Scans .outside (quote :: s.flatMap encode ++ [quote]) [.str s] .outside := by
  have opened : Scans .outside [quote] [] (.inside []) := Scans.byte rfl
  have closed : Scans (.inside s) [quote] [.str s] .outside := Scans.byte rfl
  exact (opened.append (Scans.body s encodes [])).append closed

theorem Scans.lexed {text : List UInt8} {tokens : List Token}
    (scanned : Scans .outside text tokens .outside) : lex .outside text = some tokens := by
  have whole := scanned []
  rw [List.append_nil] at whole
  rw [whole]
  simp [lex]

end Quoted
