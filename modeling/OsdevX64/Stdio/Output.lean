import OsdevX64.Lib.MachineInt
import OsdevX64.Lib.Tracked

/-!
# Where `printf` writes to

Every character that the functions of `stdio.c` produce goes through the
function pointer `out`, which is `_out_buffer`, or `_out_null` when there is no
buffer.  `Out` is what they pass along, `buffer`, `idx` and `maxlen`, with the
characters sent so far.

`Out.puts` sends a text: **the characters have been sent** (`puts_sent`) **and the index
has moved by their number** (`puts_idx`), no matter whether they were stored.
-/

namespace OsdevX64.Stdio

open ByteMemory MachineInt

/-- A character constant. -/
def ch (c : Char) : Byte := BitVec.ofNat 8 c.toNat

/-- The bytes of a C string before its NUL. -/
structure CString where
  bytes : List Byte
  nul_free : ∀ b ∈ bytes, b ≠ 0

/-- The destination of the output. -/
structure Out where
  /-- The buffer; `none` is a null pointer, for which `out` is `_out_null`. -/
  buffer : Option (Tracked ℕ Byte)
  maxlen : ℕ
  idx : ℕ
  idx_lt : idx < 2 ^ 64
  /-- The characters sent so far. -/
  sent : List Byte

/-- `_out_buffer`. -/
def outBuffer (character : Byte) (buffer : Tracked ℕ Byte) (idx maxlen : ℕ) : Tracked ℕ Byte :=
  if idx < maxlen then buffer.write idx character else buffer

/-- `out(character, buffer, idx, maxlen)`. -/
def Out.out (o : Out) (character : Byte) (idx : ℕ) : Out :=
  { o with buffer := o.buffer.map fun buffer => outBuffer character buffer idx o.maxlen }

/-- `out(character, buffer, idx++, maxlen)`. -/
def Out.put (o : Out) (character : Byte) : Out :=
  { o.out character o.idx with
    idx := u64 (o.idx + 1)
    idx_lt := u64_lt _
    sent := o.sent ++ [character] }

/-- A loop that sends the same character `count` times. -/
def Out.putMany (o : Out) (character : Byte) : ℕ → Out
  | 0 => o
  | count + 1 => (o.put character).putMany character count

/-! ## Sending a text -/

/-- Send a text. -/
def Out.puts (o : Out) (text : List Byte) : Out := text.foldl Out.put o

@[simp] theorem puts_nil (o : Out) : o.puts [] = o := rfl

@[simp] theorem puts_cons (o : Out) (c : Byte) (text : List Byte) :
    o.puts (c :: text) = (o.put c).puts text := rfl

theorem puts_append (o : Out) (text text' : List Byte) :
    o.puts (text ++ text') = (o.puts text).puts text' := List.foldl_append

theorem putMany_eq (o : Out) (c : Byte) (count : ℕ) :
    o.putMany c count = o.puts (List.replicate count c) := by
  induction count generalizing o with
  | zero => rfl
  | succ count ih => exact ih (o.put c)

theorem puts_sent (o : Out) (text : List Byte) : (o.puts text).sent = o.sent ++ text := by
  induction text generalizing o with
  | nil => exact (List.append_nil _).symm
  | cons c text ih =>
      rw [puts_cons, ih]
      exact List.append_assoc _ [c] text

theorem puts_idx (o : Out) (text : List Byte) :
    (o.puts text).idx = u64 (o.idx + text.length) := by
  induction text generalizing o with
  | nil => exact (Nat.mod_eq_of_lt o.idx_lt).symm
  | cons c text ih =>
      have hidx : (o.put c).idx = u64 (o.idx + 1) := rfl
      rw [puts_cons, ih, hidx, u64_u64_add, List.length_cons, Nat.add_assoc, Nat.add_comm 1]

end OsdevX64.Stdio
