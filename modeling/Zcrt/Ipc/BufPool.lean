/-
  The message buffers of a server: the list of free ones, and the allocator behind it
  (`zipc_buf_malloc` and `zipc_buf_free` of `zipc/zipc_parse.c`).

  A buffer is named by a number; those from `fresh` on have not been allocated yet. The allocator
  always succeeds.
-/
import Zcrt.Core.Buf
import Zcrt.Ipc.Format

namespace Zcrt

open Lib

/-- `ipc->freebuf` as a list, and what is in each buffer. -/
structure BufPool where
  freebuf : List Nat
  fresh : Nat
  bufs : Nat → ZBuf

namespace BufPool

def store (pool : BufPool) (b : Nat) (v : ZBuf) : BufPool :=
  { pool with bufs := Function.update pool.bufs b v }

/-- `zipc_buf_malloc`, the module not `NULL`. -/
def malloc (pool : BufPool) : Nat × BufPool :=
  match pool.freebuf with
  | buf :: next => (buf, { pool with freebuf := next }.store buf (zcrtBufClear (pool.bufs buf)))
  | [] =>
      let buf := pool.fresh
      (buf, { pool with fresh := buf + 1 }.store buf
        (zcrtBufClear (zcrtBufInit ZIPC_BUF_LEN (pool.bufs buf).buf)))

/-- `zipc_buf_free`, neither argument `NULL`. -/
def free (pool : BufPool) (buf : Nat) : BufPool := { pool with freebuf := buf :: pool.freebuf }

@[simp] theorem store_self (pool : BufPool) (b : Nat) (v : ZBuf) : (pool.store b v).bufs b = v :=
  Function.update_self ..

/-- What is handed out is empty. -/
theorem malloc_cleared (pool : BufPool) :
    ∃ v, pool.malloc.2.bufs pool.malloc.1 = zcrtBufClear v := by
  unfold malloc
  cases pool.freebuf with
  | nil => exact ⟨_, store_self _ _ _⟩
  | cons buf next => exact ⟨_, store_self _ _ _⟩

end BufPool

/-- No buffer has been allocated. -/
def noBuffers : BufPool :=
  { freebuf := [], fresh := 0, bufs := fun _ => recycled [] 0 }

end Zcrt
