/-!
Text as bytes.
-/
namespace BacktestAudit.Text

/-- The UTF-8 encoding of a text. -/
def encode (s : String) : List UInt8 := s.toUTF8.toList

def decode? (bs : List UInt8) : Option String := String.fromUTF8? bs.toByteArray

theorem to_list_loop_eq (bs : ByteArray) (i : Nat) (acc : List UInt8) :
    ByteArray.toList.loop bs i acc = acc.reverse ++ bs.data.toList.drop i := by
  fun_induction ByteArray.toList.loop bs i acc with
  | case1 i acc hi ih =>
    rw [ih, List.reverse_cons, List.append_assoc]
    congr 1
    have hi' : i < bs.data.toList.length := hi
    rw [List.drop_eq_getElem_cons hi']
    change bs.data[i]! :: _ = _
    rw [getElem!_pos bs.data i hi, Array.getElem_toList]
    rfl
  | case2 i acc hi =>
    rw [List.drop_eq_nil_of_le (Nat.le_of_not_lt hi), List.append_nil]

theorem to_list_eq (bs : ByteArray) : bs.toList = bs.data.toList := by
  rw [ByteArray.toList, to_list_loop_eq]
  rfl

theorem to_byte_array_encode (s : String) : (encode s).toByteArray = s.toUTF8 := by
  apply ByteArray.ext
  rw [encode, to_list_eq, List.data_toByteArray, Array.toArray_toList]

theorem encode_empty : encode "" = [] := by
  rw [encode, to_list_eq]
  rfl

theorem encode_append (a b : String) : encode (a ++ b) = encode a ++ encode b := by
  rw [encode, encode, encode, to_list_eq, to_list_eq, to_list_eq]
  change (a ++ b).toByteArray.data.toList = a.toByteArray.data.toList ++ b.toByteArray.data.toList
  rw [String.toByteArray_append, ByteArray.data_append, Array.toList_append]

theorem encode_char (c : Char) : encode (String.ofList [c]) = String.utf8EncodeChar c := by
  rw [encode, to_list_eq]
  change (String.ofList [c]).toByteArray.data.toList = _
  rw [String.toByteArray_ofList, List.utf8Encode_singleton, List.toList_data_toByteArray]

theorem encode_injective {a b : String} (h : encode a = encode b) : a = b := by
  have hbytes := congrArg List.toByteArray h
  rw [to_byte_array_encode, to_byte_array_encode] at hbytes
  exact String.toByteArray_inj.mp hbytes

theorem decode_encode (s : String) : decode? (encode s) = some s := by
  rw [decode?, to_byte_array_encode]
  exact dif_pos s.isValidUTF8

theorem encode_of_decode {bs : List UInt8} {s : String} (h : decode? bs = some s) :
    encode s = bs := by
  unfold decode? String.fromUTF8? at h
  split at h
  · obtain rfl := Option.some.inj h
    rw [encode, to_list_eq]
    exact List.toList_data_toByteArray
  · nomatch h

end BacktestAudit.Text
