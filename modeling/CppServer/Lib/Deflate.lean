/-
# Compressing a stream

`deflate` of zlib takes bytes of the input that the caller offers and puts bytes into the output
that the caller has room for, as many of both as it likes, and returns a code.  What it puts is
determined by the calls from `deflateInit` on, so its results are the only thing that is known of
it here: `Fed` are the states behind calls with `Z_NO_FLUSH`, `Finishing` the states behind calls
with `Z_FINISH` that follow them.  `Documented` is what its manual promises of these states.
-/
import CppServer.Lib.Bytes

namespace CppServer

/-- The values of the parameter `flush` that are used. -/
inductive Flush where
  | noFlush
  | finish
deriving DecidableEq

/-- The codes that zlib returns. -/
inductive ZError where
  | ok
  | streamEnd
  | needDict
  | errno
  | streamError
  | dataError
  | memError
  | bufError
  | versionError
deriving DecidableEq

/-- What a call of `deflate` did. -/
structure Deflated (σ : Type) where
  state : σ
  consumed : ℕ
  produced : Bytes
  error : ZError

/-- The functions of zlib, with the state `σ` behind a `z_stream`.  `deflate` gets the bytes at
`next_in` and `avail_out`. -/
structure Zlib (σ : Type) where
  deflateInit : σ × ZError
  deflate : σ → Bytes → ℕ → Flush → Deflated σ
  deflateEnd : σ → ZError

namespace Zlib

variable {σ : Type} (z : Zlib σ)

/-- The stream has taken `inp` and put `out`, in calls with `Z_NO_FLUSH`. -/
inductive Fed : Bytes → Bytes → σ → Prop where
  | start : Fed [] [] z.deflateInit.1
  | call {inp out : Bytes} {st : σ} (h : Fed inp out st) (input : Bytes) (availOut : ℕ) :
      Fed (inp ++ input.take (z.deflate st input availOut .noFlush).consumed)
        (out ++ (z.deflate st input availOut .noFlush).produced)
        (z.deflate st input availOut .noFlush).state

/-- Calls with `Z_FINISH` have followed, each with what the one before had left of the input, and
the stream has not ended.  All input is `total`, of which `rest` is not taken yet. -/
inductive Finishing : Bytes → Bytes → Bytes → σ → Prop where
  | start {inp out : Bytes} {st : σ} (h : Fed z inp out st) (rest : Bytes) :
      Finishing (inp ++ rest) rest out st
  | call {total rest out : Bytes} {st : σ} (h : Finishing total rest out st) (availOut : ℕ)
      (hok : (z.deflate st rest availOut .finish).error = .ok) :
      Finishing total (rest.drop (z.deflate st rest availOut .finish).consumed)
        (out ++ (z.deflate st rest availOut .finish).produced)
        (z.deflate st rest availOut .finish).state

/-- What the manual promises, for a bound `bound` of the length of the output and the inverse
`inflate`. -/
structure Documented (bound : ℕ → ℕ) (inflate : Bytes → Option Bytes) : Prop where
  init_ok : z.deflateInit.2 = .ok
  consumed_le : ∀ st input availOut flush, (z.deflate st input availOut flush).consumed ≤ input.length
  produced_le : ∀ st input availOut flush,
    (z.deflate st input availOut flush).produced.length ≤ availOut
  /-- Input is compressed until it is used up or the output is full. -/
  noFlush_stops : ∀ {inp out st input availOut}, Fed z inp out st → input ≠ [] → 0 < availOut →
    (z.deflate st input availOut .noFlush).error = .ok ∧
      ((z.deflate st input availOut .noFlush).consumed = input.length ∨
        (z.deflate st input availOut .noFlush).produced.length = availOut)
  /-- The stream ends if there was enough room, else the output is full. -/
  finish_stops : ∀ {total rest out st availOut}, Finishing z total rest out st → 0 < availOut →
    (z.deflate st rest availOut .finish).error = .ok ∧
        (z.deflate st rest availOut .finish).produced.length = availOut ∨
      (z.deflate st rest availOut .finish).error = .streamEnd
  bound_mono : ∀ {m n}, m ≤ n → bound m ≤ bound n
  length_le : ∀ {total rest out st}, Finishing z total rest out st → out.length ≤ bound total.length
  /-- The output of a stream that has ended is inflated to all its input. -/
  inflates : ∀ {total rest out st availOut}, Finishing z total rest out st →
    (z.deflate st rest availOut .finish).error = .streamEnd →
      inflate (out ++ (z.deflate st rest availOut .finish).produced) = some total ∧
        z.deflateEnd (z.deflate st rest availOut .finish).state = .ok

end Zlib

end CppServer
