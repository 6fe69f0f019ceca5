import CoapEap.Bytes
import CoapEap.Library.OptionFormat

/-!
A CoAP datagram from its parts, as both codecs write and read it: the four bytes
of the header, a token, options in the delta format and a payload behind its
marker.
-/

namespace CoapEap

open Library.OptionFormat

/-- The datagram with these parts. The low four bits of `first` are meant to be
the length of the token. -/
def datagram (first code : UInt8) (mid : UInt16) (token : Bytes) (options : List (Nat × Bytes))
    (payload : Bytes) : Bytes :=
  [first, code] ++ be16 mid.toNat ++ (token ++ (encodeOptions 0 options ++ marked payload))

variable (first code : UInt8) (mid : UInt16) (token : Bytes) (options : List (Nat × Bytes))
variable (payload behind : Bytes)

theorem datagram_first : byteAt (datagram first code mid token options payload ++ behind) 0 =
    first.toNat := rfl

theorem datagram_code : byteAt (datagram first code mid token options payload ++ behind) 1 =
    code.toNat := rfl

theorem datagram_mid : be16At (datagram first code mid token options payload ++ behind) 2 =
    mid.toNat := by
  have hload : be16At (datagram first code mid token options payload ++ behind) 2 =
      be16At (be16 mid.toNat ++ []) 0 := rfl
  rw [hload, be16At_be16 (UInt16.toNat_lt _)]

theorem datagram_drop_header :
    (datagram first code mid token options payload ++ behind).drop 4 =
      token ++ (encodeOptions 0 options ++ (marked payload ++ behind)) := by
  have hdrop : (datagram first code mid token options payload ++ behind).drop 4 =
      token ++ (encodeOptions 0 options ++ marked payload) ++ behind := rfl
  rw [hdrop, List.append_assoc, List.append_assoc]

theorem datagram_drop_token :
    (datagram first code mid token options payload ++ behind).drop (4 + token.length) =
      encodeOptions 0 options ++ (marked payload ++ behind) := by
  rw [← List.drop_drop, datagram_drop_header, List.drop_left]

theorem datagram_length : (datagram first code mid token options payload).length =
    4 + token.length + (encodeOptions 0 options).length + (marked payload).length := by
  simp only [datagram, be16, List.length_append, List.length_cons, List.length_nil]
  omega

end CoapEap
