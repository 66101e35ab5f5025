import Lunatik.Lua.Lexer
import Lunatik.Lua.Undump

/-! # From the submitted buffer to the parser (`lunatik.c`, `lauxlib.c`, `ldo.c`)

`sys_lua` copies `code_size` bytes to `code_kern`, whatever that size is, and the size
travels unchanged to `loadcode_internal`, which leaves out a last byte that it takes for a
terminating zero.  `f_parser` looks at the first byte to tell a precompiled chunk from
source text.  The parser itself reads its input only by `luaX_next` and `luaX_lookahead`:
any sequence of these calls stands for it.
-/

namespace Lunatik.Core

open Lunatik.Kernel Lunatik.Lua

-- the stream at the end of a load, and the bytes that the lexer or the loader obtained
structure Consumed where
  z : Zio
  delivered : List UInt8

def lexCalls (fuel : Nat) : List LexCall → LexM PUnit
  | [] => return
  | call :: calls => do
    lexCall fuel call
    lexCalls fuel calls

def blankLexState (z : Zio) : LexState :=
  { current := none, linenumber := 0, lastline := 0, t := .eos, lookahead := .eos, z, buff := [],
    decpoint := 0, delivered := [] }

def luaYParserInput (fuel : Nat) (calls : List LexCall) (z : Zio) : Consumed :=
  match (do luaXSetinput z; lexCalls fuel calls : LexM PUnit) (blankLexState z) with
  | .ok _ ls => ⟨ls.z, ls.delivered⟩
  | .error _ ls => ⟨ls.z, ls.delivered⟩

def luaUUndumpInput (z : Zio) : Consumed :=
  match luaUUndump zioRead ⟨z, []⟩ with
  | .ok _ s => ⟨s.z, s.delivered⟩
  | .error _ s => ⟨s.z, s.delivered⟩

/-- The input of `f_parser`. -/
def fParserInput (fuel : Nat) (calls : List LexCall) (z : Zio) : Consumed :=
  let (c, z) := z.luaZLookahead
  -- LUA_SIGNATURE[0]
  if c = some 27 then luaUUndumpInput z else luaYParserInput fuel calls z

/-- `luaL_loadbuffer(L, buff, size, name)`. -/
def luaLLoadbufferInput (fuel : Nat) (calls : List LexCall) (code : Nat → UInt8) (size : Nat) :
    Consumed :=
  fParserInput fuel calls (.luaZInit code size)

/-- `luaL_loadbuffer(L, d->code, d->sz_code - 1, "loadcode")`, in `size_t`. -/
def loadcodeInternalInput (fuel : Nat) (calls : List LexCall) (code : Nat → UInt8) (szCode : Nat) :
    Consumed :=
  luaLLoadbufferInput fuel calls code (wrap (szCode + (sizeModulus - 1)))

end Lunatik.Core
