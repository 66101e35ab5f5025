import Lunatik.Lua.Object
import Lunatik.Lua.Strcoll

/-! # Names of chunks (`lobject.c`)

`luaO_chunkid` with the string functions of the kernel that it calls.  They write into a buffer and read
it; an access outside of the buffer gives `none`.
-/

namespace Lunatik.Lua.Chunkid

open Lunatik.Kernel Lunatik.Lua.Strcoll

/-- A string up to the zero that ends it. -/
structure CString where
  bytes : List UInt8
  zeroFree : 0 ∉ bytes
  fits : bytes.length < sizeModulus

/-- A buffer, with what was written into it: the offsets and bytes, in the order of the writes. -/
structure Out where
  bytes : List UInt8
  written : List (Nat × UInt8)

/-! ## String functions -/

-- out[i] = c
def putc (out : Out) (i : Nat) (c : UInt8) : Option Out :=
  if i < out.bytes.length then some ⟨out.bytes.set i c, out.written ++ [(i, c)]⟩ else none

def puts (out : Out) : Nat → List UInt8 → Option Out
  | _, [] => some out
  | i, c :: rest => do
    let out ← putc out i c
    puts out (i + 1) rest

-- strlen(out)
def outlen (out : Out) : Option Nat := out.bytes.findIdx? (· == 0)

def strcpy (out : Out) (s : List UInt8) : Option Out := puts out 0 (s ++ [0])

def strcat (out : Out) (s : List UInt8) : Option Out := do puts out (← outlen out) (s ++ [0])

/-- A count of zero writes nothing. -/
def strncat (out : Out) (s : List UInt8) (count : Nat) : Option Out :=
  if count = 0 then some out
  else do puts out (← outlen out) (s.take count ++ [0])

/-- The rest is filled with zeros. -/
def strncpy (out : Out) (s : List UInt8) (count : Nat) : Option Out :=
  puts out 0 (s.take count ++ List.replicate (count - s.length) 0)

-- strcspn(s, "\n\r")
def lineLength (s : List UInt8) : Nat := (s.takeWhile fun c => c != 10 && c != 13).length

/-! ## `luaO_chunkid` -/

-- of a string literal, with its zero
def sizeof (s : String) : Nat := (literal s).length + 1

def luaOChunkid (out : Out) (source : List UInt8) (bufflen : Nat) : Option Out :=
  match source with
  -- '='
  | 61 :: source => do
    let out ← strncpy out source bufflen
    -- ensures null termination
    putc out (sizeSub bufflen 1) 0
  -- '@'
  | 64 :: source => do
    let bufflen := sizeSub bufflen (sizeof " '...' ")
    let l := source.length
    let out ← strcpy out []
    if bufflen < l then
      -- get last part of file name
      let out ← strcat out (literal "...")
      strcat out (source.drop (l - bufflen))
    else strcat out source
  | source => do
    -- stop at first newline
    let len := lineLength source
    let bufflen := sizeSub bufflen (sizeof " [string \"...\"] ")
    let len := if bufflen < len then bufflen else len
    let out ← strcpy out (literal "[string \"")
    -- must truncate?
    let out ←
      if (← byteAt source len) ≠ 0 then do
        let out ← strncat out source len
        strcat out (literal "...")
      else strcat out source
    strcat out (literal "\"]")

def luaIdsize : Nat := 60
def maxsrc : Nat := 80

-- buff[size], on the stack
def onStack (garbage : Nat → UInt8) (size : Nat) : Out := ⟨(List.range size).map garbage, []⟩

/-- The calls in `addinfo` and `funcinfo`, and in `luaX_lexerror`. -/
def addinfoChunk (garbage : Nat → UInt8) (source : CString) : Option Out :=
  luaOChunkid (onStack garbage luaIdsize) source.bytes luaIdsize

def lexerrorChunk (garbage : Nat → UInt8) (source : CString) : Option Out :=
  luaOChunkid (onStack garbage maxsrc) source.bytes maxsrc

end Lunatik.Lua.Chunkid
