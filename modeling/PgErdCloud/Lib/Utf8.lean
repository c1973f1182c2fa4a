/-
  `s.encode("utf-8")` of a text without surrogates.
-/
import PgErdCloud.Lib.PyStr

namespace PgErdCloud.Lib.PyStr

/-- `s.encode()` -/
def encodeUtf8 (s : Str) : List UInt8 := s.flatMap String.utf8EncodeChar

/-- A text can be read back from its bytes. -/
theorem encodeUtf8_injective : Function.Injective encodeUtf8 := by
  intro s t h
  have hbytes : s.utf8Encode = t.utf8Encode := by
    unfold List.utf8Encode
    exact congrArg List.toByteArray h
  rw [← String.toByteArray_ofList, ← String.toByteArray_ofList] at hbytes
  exact String.ofList_injective (String.toByteArray_inj.mp hbytes)

end PgErdCloud.Lib.PyStr
