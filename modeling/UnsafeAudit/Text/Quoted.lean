import UnsafeAudit.Text.Printable
import UnsafeAudit.Text.Utf8

/-!
# Quoted text

How a text is quoted inside a message: between single quotes, or between
double quotes when it holds a single quote and no double quote. The quote in
use, the backslash and unprintable characters are escaped.
-/

namespace UnsafeAudit.Text.Quoted

open Utf8 (hexDigit)

def hex (width n : Nat) : List Char :=
  match width with
  | 0 => []
  | w + 1 => hex w (n / 16) ++ [hexDigit (n % 16)]

def quoteFor (text : List Char) : Char :=
  if text.contains '\'' && !text.contains '"' then '"' else '\''

def escape (quote c : Char) : List Char :=
  if c = quote || c = '\\' then ['\\', c]
  else if c = '\n' then ['\\', 'n']
  else if c = '\r' then ['\\', 'r']
  else if c = '\t' then ['\\', 't']
  else if isPrintable c then [c]
  else
    let n := c.toNat
    if n < 0x100 then '\\' :: 'x' :: hex 2 n
    else if n < 0x10000 then '\\' :: 'u' :: hex 4 n
    else '\\' :: 'U' :: hex 8 n

def encode (text : List Char) : List Char :=
  let quote := quoteFor text
  quote :: text.flatMap (escape quote) ++ [quote]

end Quoted

def quoted (text : String) : String := String.ofList (Quoted.encode text.toList)

end UnsafeAudit.Text
