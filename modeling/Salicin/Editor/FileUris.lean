import Salicin.Editor.Messages

/-!
# File URIs

`lsp.rs` writes the bytes of a path behind the scheme of a URI and reads them back. A byte stands
for itself or is escaped, by a percent sign and two hexadecimal digits.
-/

namespace Salicin.Editor

open List TextBytes

/-- The bytes of a path as a URI writes them. -/
inductive Escaped : List UInt8 → List UInt8 → Prop
  | nil : Escaped [] []
  | literal {byte : UInt8} {rest path : List UInt8} (hbyte : byte ≠ 37)
      (hrest : Escaped rest path) : Escaped (byte :: rest) (byte :: path)
  | escape {high low : UInt8} {upper lower : Nat} {rest path : List UInt8}
      (hhigh : hexDigit high = some upper) (hlow : hexDigit low = some lower)
      (hrest : Escaped rest path) :
      Escaped (37 :: high :: low :: rest) (UInt8.ofNat (16 * upper + lower) :: path)

/-- A zero instead of a plus sign. -/
def unsignedDigit (digit : UInt8) : UInt8 := if digit = 43 then 48 else digit

/-- The bytes of a URI with a zero for each plus sign at the start of an escape. -/
def unsigned : List UInt8 → List UInt8
  | [] => []
  | byte :: rest =>
    if byte = 37 then
      match rest with
      | high :: low :: rest => 37 :: unsignedDigit high :: low :: unsigned rest
      | other => 37 :: other
    else byte :: unsigned rest

theorem escaped_literal {byte : UInt8} (hbyte : byte ≠ 37) {rest path : List UInt8} :
    Escaped (byte :: rest) path ↔ ∃ others, Escaped rest others ∧ byte :: others = path := by
  constructor
  · intro hescaped
    cases hescaped with
    | literal _ hrest => exact ⟨_, hrest, rfl⟩
    | escape => exact absurd rfl hbyte
  · rintro ⟨others, hothers, rfl⟩
    exact .literal hbyte hothers

theorem unsigned_literal {byte : UInt8} (hbyte : byte ≠ 37) (rest : List UInt8) :
    unsigned (byte :: rest) = byte :: unsigned rest := by
  conv => lhs; unfold unsigned
  exact if_neg hbyte

theorem Escaped.unsigned_eq {body path : List UInt8} (hescaped : Escaped body path) :
    unsigned body = body := by
  induction hescaped with
  | nil => rfl
  | literal hbyte _ ih => rw [unsigned_literal hbyte, ih]
  | @escape high low _ _ rest _ hhigh _ _ ih =>
    have hplus : high ≠ 43 := by
      rintro rfl
      simp [hexDigit] at hhigh
    rw [unsigned, if_pos rfl, unsignedDigit, if_neg hplus, ih]

/-! ## Reading -/

theorem percentByte_eq_some {high low byte : UInt8} :
    percentByte high low = some byte ↔ ∃ upper lower, hexDigit (unsignedDigit high) = some upper ∧
      hexDigit low = some lower ∧ UInt8.ofNat (16 * upper + lower) = byte := by
  unfold percentByte unsignedDigit
  split
  · have hzero : hexDigit 48 = some 0 := by decide
    simp [hzero]
  · simp [bind, Option.bind_eq_some_iff]

theorem percentDecode_literal {byte : UInt8} (hbyte : byte ≠ 37) (rest : List UInt8) :
    percentDecode (byte :: rest) = (percentDecode rest).map (byte :: ·) := by
  conv => lhs; unfold percentDecode
  rw [if_neg hbyte]
  cases percentDecode rest <;> rfl

/-- The reader takes the escapes as if a zero stood for each plus sign. -/
theorem percentDecode_eq_some {body path : List UInt8} :
    percentDecode body = some path ↔ Escaped (unsigned body) path := by
  induction body using percentDecode.induct generalizing path with
  | case1 =>
    rw [percentDecode, unsigned, Option.some.injEq]
    constructor
    · rintro rfl
      exact .nil
    · intro hescaped
      cases hescaped
      rfl
  | case2 high low rest ih =>
    simp only [percentDecode, unsigned, if_pos, bind, Option.bind_eq_some_iff,
      percentByte_eq_some, Option.some.injEq, ih]
    constructor
    · rintro ⟨_, ⟨upper, lower, hhigh, hlow, rfl⟩, others, hothers, rfl⟩
      exact .escape hhigh hlow hothers
    · intro hescaped
      cases hescaped with
      | literal hbyte => exact absurd rfl hbyte
      | escape hhigh hlow hrest => exact ⟨_, ⟨_, _, hhigh, hlow, rfl⟩, _, hrest, rfl⟩
  | case3 rest hshort =>
    have hnone : percentDecode (37 :: rest) = none := by
      unfold percentDecode
      simp only [if_true]
    have hsame : unsigned (37 :: rest) = 37 :: rest := by
      unfold unsigned
      simp only [if_true]
    rw [hnone, hsame]
    refine iff_of_false (by simp) fun hescaped => ?_
    cases hescaped with
    | literal hbyte => exact hbyte rfl
    | escape => exact hshort _ _ _ rfl
  | case4 byte rest hbyte ih =>
    rw [percentDecode_literal hbyte, unsigned_literal hbyte, escaped_literal hbyte,
      Option.map_eq_some_iff]
    simp only [ih]

theorem fileUriToPath_eq_ok {uri path : String} :
    fileUriToPath uri = .ok path ↔ ∃ body, encode uri = encode "file://" ++ body ∧
      Escaped (unsigned body) (encode path) := by
  rw [fileUriToPath]
  split
  next hscheme =>
    obtain ⟨body, hbody⟩ := isPrefixOf_iff_prefix.mp hscheme
    rw [← hbody, drop_left]
    constructor
    · intro hread
      split at hread
      · cases hread
      next decoded hdecoded =>
        split at hread
        next text htext =>
          cases hread
          refine ⟨body, rfl, ?_⟩
          rw [encode_of_decode htext]
          exact percentDecode_eq_some.mp hdecoded
        · cases hread
    · rintro ⟨body', hsame, hescaped⟩
      obtain rfl := append_cancel_left hsame
      simp only [percentDecode_eq_some.mpr hescaped, decode_encode]
  next hscheme =>
    refine iff_of_false (by simp) ?_
    rintro ⟨body, hbody, -⟩
    exact hscheme <| isPrefixOf_iff_prefix.mpr ⟨body, hbody.symm⟩

/-! ## Writing -/

theorem encode_push {char : Char} (hascii : char.toNat < 128) (text : String) :
    encode (text.push char) =
      encode text ++ [UInt8.ofNat char.toNat] := by
  have hle : char.val.toNat ≤ 127 := Nat.le_of_lt_succ hascii
  have hbytes : String.utf8EncodeChar char = [UInt8.ofNat char.toNat] := if_pos hle
  rw [encode, String.toByteArray_push, utf8Encode_singleton, hbytes]
  simp [encode]

theorem hexCharacter_digit : ∀ digit : Fin 16, (hexCharacter digit).toNat < 128 ∧
    hexDigit (UInt8.ofNat (hexCharacter digit).toNat) = some digit.val := by
  decide

theorem escaped_step {step : String → UInt8 → String} (hstep : ∀ uri byte, ∃ added,
      encode (step uri byte) = encode uri ++ added ∧
      ∀ rest path, Escaped rest path → Escaped (added ++ rest) (byte :: path))
    (path : List UInt8) (uri : String) : ∃ body, encode (path.foldl step uri) = encode uri ++ body ∧
        Escaped body path := by
  induction path generalizing uri with
  | nil => exact ⟨[], (append_nil _).symm, .nil⟩
  | cons byte rest ih =>
    obtain ⟨added, hadded, hwrites⟩ := hstep uri byte
    obtain ⟨body, hbody, hescaped⟩ := ih (step uri byte)
    refine ⟨added ++ body, ?_, hwrites _ _ hescaped⟩
    rw [foldl_cons, hbody, hadded, append_assoc]

theorem pathToFileUri_escaped (path : String) : ∃ body,
    encode (pathToFileUri path) = encode "file://" ++ body ∧
      Escaped body (encode path) := by
  refine escaped_step (fun uri byte => ?_) _ _
  dsimp only
  split
  next hplain =>
    have hascii : byte.toNat < 128 := by
      rcases hplain with ⟨hlt, -⟩ | hmem
      · exact hlt
      · simp only [mem_cons, not_mem_nil, or_false] at hmem
        rcases hmem with rfl | rfl | rfl | rfl | rfl <;> decide
    have hchar : (Char.ofNat byte.toNat).toNat = byte.toNat := by
      rw [Char.ofNat, dif_pos (.inl (by omega))]
      rfl
    refine ⟨[byte], ?_, fun rest path => .literal ?_⟩
    · rw [encode_push (by rw [hchar]; exact hascii), hchar, UInt8.ofNat_toNat]
    · rintro rfl
      revert hplain
      decide
  next =>
    have hbyte := byte.toNat_lt
    obtain ⟨hupper, hhigh⟩ := hexCharacter_digit ⟨byte.toNat / 16, by omega⟩
    obtain ⟨hlower, hlow⟩ := hexCharacter_digit ⟨byte.toNat % 16, by omega⟩
    refine ⟨[37, UInt8.ofNat (hexCharacter (byte.toNat / 16)).toNat,
      UInt8.ofNat (hexCharacter (byte.toNat % 16)).toNat], ?_, fun rest path hrest => ?_⟩
    · rw [encode_push hlower, encode_push hupper, encode_push (by decide), append_assoc,
        append_assoc]
      rfl
    · have hescape := Escaped.escape hhigh hlow hrest
      rwa [Nat.div_add_mod, UInt8.ofNat_toNat] at hescape

/-! ## Exactness -/

/-- The URI is the scheme and the path, written. -/
def WritesPath (uri path : String) : Prop :=
  ∃ body, encode uri = encode "file://" ++ body ∧ Escaped body (encode path)

/-- A path is read from the URI that is written for it. A URI is read only as the path that it
writes just if none of its escapes begins with a plus sign, or it writes no path with zeros
instead either. -/
theorem fileUris_exact (path uri : String) :
    fileUriToPath (pathToFileUri path) = .ok path ∧
      ((∀ decoded, fileUriToPath uri = .ok decoded ↔ WritesPath uri decoded) ↔
        ∀ body, encode uri = encode "file://" ++ body → unsigned body = body ∨
            ∀ decoded, ¬ Escaped (unsigned body) (encode decoded)) := by
  constructor
  · obtain ⟨body, hbody, hescaped⟩ := pathToFileUri_escaped path
    exact fileUriToPath_eq_ok.mpr ⟨body, hbody, hescaped.unsigned_eq.symm ▸ hescaped⟩
  · constructor
    · intro hexact body hbody
      by_contra hsigned
      obtain ⟨hne, hreads⟩ := not_or.mp hsigned
      obtain ⟨decoded, hdecoded⟩ := not_forall_not.mp hreads
      obtain ⟨body', hbody', hescaped⟩ :=
        (hexact decoded).mp (fileUriToPath_eq_ok.mpr ⟨body, hbody, hdecoded⟩)
      obtain rfl := append_cancel_left (hbody.symm.trans hbody')
      exact hne hescaped.unsigned_eq
    · intro hcond decoded
      rw [fileUriToPath_eq_ok]
      constructor
      · rintro ⟨body, hbody, hescaped⟩
        rcases hcond body hbody with hsame | hnone
        · exact ⟨body, hbody, hsame ▸ hescaped⟩
        · exact absurd hescaped (hnone decoded)
      · rintro ⟨body, hbody, hescaped⟩
        exact ⟨body, hbody, hescaped.unsigned_eq.symm ▸ hescaped⟩

theorem not_writesPath_plus : fileUriToPath "file:///%+A" = .ok "/\n" ∧
    ¬ WritesPath "file:///%+A" "/\n" := by
  have hbody : encode "file:///%+A" = encode "file://" ++ [47, 37, 43, 65] := by decide
  have hzero : hexDigit 48 = some 0 := rfl
  have hten : hexDigit 65 = some 10 := rfl
  constructor
  · exact fileUriToPath_eq_ok.mpr ⟨_, hbody, .literal (by decide) (.escape hzero hten .nil)⟩
  · rintro ⟨body, hwritten, hescaped⟩
    obtain rfl := append_cancel_left (hbody.symm.trans hwritten)
    obtain ⟨others, hothers, -⟩ := (escaped_literal (by decide)).mp hescaped
    cases hothers with
    | literal hbyte => exact hbyte rfl
    | escape hhigh => cases hhigh

end Salicin.Editor
