import Scriptlet.Session.Repl

/-! The lines of a text. In UTF-8 no character but the line feed has the byte of one, so the lines
of the bytes are those of the text. -/

namespace Scriptlet

namespace Text

def lines : List Char → List (List Char)
  | [] => []
  | c :: rest =>
    if c = '\n' then [] :: lines rest
    else
      match lines rest with
      | [] => [[c]]
      | line :: more => (c :: line) :: more

theorem lines_append_lineFeed {cs : List Char} {last : Char} (h : cs.getLast? = some last)
    (hlast : last ≠ '\n') : lines (cs ++ ['\n']) = lines cs := by
  induction cs with
  | nil => cases h
  | cons c rest ih =>
    obtain _ | ⟨d, rest⟩ := rest
    · obtain rfl : c = last := by simpa using h
      simp [lines, hlast]
    · rw [List.getLast?_cons_cons] at h
      have hunfold (more : List Char) : lines (c :: more) =
          if c = '\n' then [] :: lines more
          else
            match lines more with
            | [] => [[c]]
            | line :: later => (c :: line) :: later := lines.eq_2 ..
      rw [List.cons_append, hunfold, ih h, hunfold]

theorem lines_append_cons {cs : List Char} (h : '\n' ∉ cs) (rest : List Char) :
    lines (cs ++ '\n' :: rest) = cs :: lines rest := by
  induction cs with
  | nil => rfl
  | cons c cs ih =>
    simp only [List.mem_cons, not_or] at h
    rw [List.cons_append, lines, if_neg (Ne.symm h.1), ih h.2]

theorem trim_append_lineFeed (cs : List Char) : trim (cs ++ ['\n']) = trim cs := by
  have hfeed : isWhitespace '\n' = true := by decide
  unfold trim trimRight trimLeft
  rw [List.dropWhile_append]
  split
  · next hnil =>
    rw [List.isEmpty_iff] at hnil
    rw [hnil, List.dropWhile_cons_of_pos hfeed]
    rfl
  · rw [List.reverse_append, List.reverse_singleton, List.singleton_append,
      List.dropWhile_cons_of_pos hfeed]

theorem trimLeft_eq_self {cs : List Char} (h : ∀ c ∈ cs.head?, isWhitespace c = false) :
    trimLeft cs = cs := by
  cases cs with
  | nil => rfl
  | cons c cs => exact List.dropWhile_cons_of_neg (by simp [h c rfl])

theorem trim_eq_self {cs : List Char} (hhead : ∀ c ∈ cs.head?, isWhitespace c = false)
    (hlast : ∀ c ∈ cs.getLast?, isWhitespace c = false) : trim cs = cs := by
  have hreverse : trimLeft cs.reverse = cs.reverse := by
    refine trimLeft_eq_self fun c hc => hlast c ?_
    rwa [List.head?_reverse] at hc
  rw [trim, trimLeft_eq_self hhead, trimRight, hreverse, List.reverse_reverse]

theorem trim_cons_of_isWhitespace {c : Char} (h : isWhitespace c = true) (cs : List Char) :
    trim (c :: cs) = trim cs := by
  rw [trim, trimLeft, List.dropWhile_cons_of_pos h]
  rfl

theorem eq_lineFeed_of_mem_utf8EncodeChar {c : Char}
    (h : Repl.lineFeed ∈ String.utf8EncodeChar c) : c = '\n' := by
  have hvalue : c.val.toNat = 10 := by
    simp only [String.utf8EncodeChar, Repl.lineFeed] at h
    generalize c.val.toNat = n at h ⊢
    -- all bytes of a longer code are 128 or more
    split at h
    · simp [← UInt8.toNat_inj] at h
      omega
    · split at h
      · simp [← UInt8.toNat_inj] at h
        omega
      · split at h <;> simp [← UInt8.toNat_inj] at h <;> omega
  exact Char.ext (UInt32.toNat_inj.1 hvalue)

end Text

namespace Repl

theorem toList_eq (bytes : ByteArray) : bytes.toList = bytes.data.toList := by
  have hloop (i : Nat) (front : List UInt8) :
      ByteArray.toList.loop bytes i front = front.reverse ++ bytes.data.toList.drop i := by
    fun_induction ByteArray.toList.loop bytes i front with
    | case1 i front h ih =>
      have hi : i < bytes.data.toList.length := h
      rw [ih, List.drop_eq_getElem_cons hi]
      simp [ByteArray.get!, h]
    | case2 i front h =>
      rw [List.drop_eq_nil_of_le (Nat.le_of_not_lt h), List.append_nil]
  exact hloop 0 []

theorem byteLines_append {bs : List UInt8} (hne : bs ≠ []) (hbs : ∀ b ∈ bs, b ≠ lineFeed)
    (rest : List UInt8) :
    byteLines (bs ++ rest) =
      match byteLines rest with
      | [] => [bs]
      | line :: more => (bs ++ line) :: more := by
  induction bs with
  | nil => exact absurd rfl hne
  | cons b bs ih =>
    obtain ⟨hb, hbs⟩ := List.forall_mem_cons.1 hbs
    rw [List.cons_append, byteLines, if_neg hb]
    obtain _ | ⟨b', bs⟩ := bs
    · rfl
    · rw [ih (List.cons_ne_nil _ _) hbs]
      cases byteLines rest <;> rfl

theorem byteLines_encoded (cs : List Char) :
    byteLines (cs.flatMap String.utf8EncodeChar) =
      (Text.lines cs).map (·.flatMap String.utf8EncodeChar) := by
  induction cs with
  | nil => rfl
  | cons c rest ih =>
    rw [List.flatMap_cons, Text.lines]
    split
    · next hc =>
      subst hc
      rw [List.map_cons, ← ih]
      rfl
    · next hc =>
      have hne : String.utf8EncodeChar c ≠ [] := String.utf8EncodeChar_ne_nil
      have hbs : ∀ b ∈ String.utf8EncodeChar c, b ≠ lineFeed := by
        rintro _ hb rfl
        exact hc (Text.eq_lineFeed_of_mem_utf8EncodeChar hb)
      rw [byteLines_append hne hbs, ih]
      cases Text.lines rest with
      | nil => simp
      | cons line more => simp

theorem inputLines_toUTF8 (input : String) :
    inputLines input.toUTF8 =
      (Text.lines input.toList).map fun line => some (String.ofList line) := by
  have hbytes : input.toUTF8.toList = input.toList.flatMap String.utf8EncodeChar := by
    conv => lhs; rw [← String.ofList_toList (s := input)]
    rw [toList_eq]
    exact List.toList_data_toByteArray
  rw [inputLines, hbytes, byteLines_encoded, List.map_map]
  refine List.map_congr_left fun line _ => ?_
  have hencoded : ByteArray.mk (line.flatMap String.utf8EncodeChar).toArray =
      (String.ofList line).toByteArray := ByteArray.ext List.data_toByteArray.symm
  simp only [Function.comp_apply, hencoded]
  exact dif_pos (String.ofList line).isValidUTF8

end Repl
end Scriptlet
