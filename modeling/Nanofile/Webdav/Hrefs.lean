import Nanofile.Base.Hex
import Nanofile.Fs.CanonicalPaths
import Nanofile.Lib.PercentCoding
import Nanofile.Webdav.MoveCopy

/-!
# The hrefs of resources

PROPFIND answers with an href for each resource, and a client sends it back as the destination of
a MOVE or COPY, as it is or behind a scheme and an authority, with or without a slash at the end.
It leads to the resource it was built for.
-/

set_option autoImplicit false

namespace Nanofile

open Nanofile.Lib

/-- `HREF_ENCODE_SET`: the controls, DEL and the characters listed. -/
def hrefEncodeSet (char : Char) : Bool :=
  char.toNat < 32 || char.toNat = 127 || char ∈ " \"#%<>?`\x7b\x7d\\^|[]".toList

def buildHref (coding : PercentCoding hrefEncodeSet) (repoId path : String) : String :=
  "/dav/" ++ repoId ++ coding.encode path

/-- A UUID with its hyphens. -/
def IsUuid (text : String) : Prop :=
  text.toList.length = 36 ∧ ∀ char ∈ text.toList, isAsciiHexdigit char = true ∨ char = '-'

instance (text : String) : Decidable (IsUuid text) :=
  decidable_of_iff (text.toList.length = 36 ∧
    text.toList.all (fun char => isAsciiHexdigit char || char = '-') = true) (by simp [IsUuid])

structure DavResource where
  repoId : String
  path : String
  uuid : IsUuid repoId
  normal : safeNormalizePath path = .ok path
  short : path.utf8ByteSize < maxPathLen

structure UrlOrigin where
  scheme : String
  authority : String
  noCut : ¬ "://".toList <:+: scheme.toList
  noSlash : '/' ∉ authority.toList

def UrlOrigin.text (origin : UrlOrigin) : String := origin.scheme ++ "://" ++ origin.authority

/-- The spellings of an href in a `Destination` header. -/
def destinationOf (origin : Option UrlOrigin) (href : String) (slash : Bool) : String :=
  origin.elim "" UrlOrigin.text ++ href ++ if slash then "/" else ""

variable (coding : PercentCoding hrefEncodeSet)

def DavResource.href (resource : DavResource) : String :=
  buildHref coding resource.repoId resource.path

/-- A slash more at the end is passed over, as long as the path is not too long. -/
theorem safeNormalizePath_slash {path : String} (normal : safeNormalizePath path = .ok path)
    (short : path.utf8ByteSize < maxPathLen) : safeNormalizePath (path ++ "/") = .ok path := by
  obtain ⟨parts, isParts, isPath⟩ := canonicalizePath_ok_iff.mp (safeNormalizePath_legal normal).2
  obtain ⟨-, rooted, -, clean, leads⟩ := canonicalParts_ok_iff.mp isParts
  have head : (path ++ "/").toList.head? = some '/' := by
    rw [String.toList_append, List.head?_append, rooted, Option.some_or]
  have trimmed := trimText_rooted head
  have visible : endsInBlank (path ++ "/") = false := by
    simp [endsInBlank, isWhitespaceChar]
  rw [visible, if_neg Bool.false_ne_true] at trimmed
  have cut : Text.split '/' (path ++ "/") = Text.split '/' path ++ [""] := by
    have twice := @Text.split_append '/' path ""
    rwa [String.append_empty] at twice
  unfold safeNormalizePath
  rw [trimmed, if_neg (by simp), if_pos head]
  refine canonicalizePath_ok_iff.mpr ⟨parts, canonicalParts_ok_iff.mpr ⟨by simp, head, ?_, ?_, ?_⟩,
    isPath⟩
  · rw [String.utf8ByteSize_append]
    have one : "/".utf8ByteSize = 1 := rfl
    omega
  · intro part listed
    rw [cut] at listed
    rcases List.mem_append.mp listed with inPath | isLast
    · exact clean part inPath
    · rw [List.mem_singleton.mp isLast]
      exact fun char listed => absurd listed (by simp)
  · rw [placeOf, cut, List.foldlM_append]
    rw [placeOf] at leads
    rw [leads]
    rfl

theorem encode_slash : coding.encode "/" = "/" := coding.keeps '/' (by decide) (by decide)

theorem encode_slashed (parts : List String) :
    coding.encode (slashed parts) = slashed (parts.map coding.encode) := by
  induction parts with
  | nil => exact coding.encode_empty
  | cons part rest ih =>
    simp only [slashed, List.map_cons, String.join_cons] at ih ⊢
    rw [coding.append, coding.append, encode_slash, ih]

theorem plainNames_encode {parts : List String} (plain : PlainNames parts) :
    PlainNames (parts.map coding.encode) := by
  intro piece listed
  obtain ⟨part, member, rfl⟩ := List.mem_map.mp listed
  obtain ⟨nonempty, noSlash⟩ := plain part member
  exact ⟨coding.encode_ne_empty nonempty,
    fun slash => noSlash (coding.mem_encode (by decide) (by decide) slash).1⟩

theorem IsUuid.not_mem {text : String} {char : Char} (uuid : IsUuid text)
    (other : isAsciiHexdigit char = false ∧ char ≠ '-') : char ∉ text.toList := by
  intro listed
  rcases uuid.2 char listed with digit | hyphen
  · rw [other.1] at digit
    cases digit
  · exact other.2 hyphen

theorem IsUuid.ne_empty {text : String} (uuid : IsUuid text) : text ≠ "" := by
  rintro rfl
  exact absurd uuid.1 (by decide)

theorem eq_of_splitOnce {piece text before after : String}
    (cut : Text.splitOnce piece text = some (before, after)) : text = before ++ piece ++ after := by
  obtain ⟨⟨first, second⟩, cutChars, same⟩ := Option.map_eq_some_iff.mp cut
  obtain ⟨rfl, rfl⟩ := Prod.mk.inj same
  apply String.toList_inj.mp
  rw [Text.cutAround_eq_some cutChars]
  simp

/-- Between names behind slashes no two slashes meet. -/
theorem splitOnce_slashed {pieces : List String} (plain : PlainNames pieces) (slash : Bool) :
    Text.splitOnce "://" (slashed pieces ++ if slash then "/" else "") = none := by
  by_contra some
  obtain ⟨⟨before, after⟩, cut⟩ := Option.ne_none_iff_exists'.mp some
  have joined := eq_of_splitOnce cut
  have parts : Text.split '/' (slashed pieces ++ if slash then "/" else "") =
      Text.split '/' (before ++ ":") ++ "" :: Text.split '/' after := by
    have text : before ++ "://" ++ after =
        before ++ ":" ++ String.singleton '/' ++ ("" ++ String.singleton '/' ++ after) :=
      String.toList_inj.mp (by simp)
    rw [joined, text, Text.split_append, Text.split_append]
    rfl
  have pieces' : Text.split '/' (slashed pieces ++ if slash then "/" else "") =
      "" :: (pieces ++ if slash then [""] else []) := by
    cases slash with
    | false => simp [split_slashed plain]
    | true =>
      have cutLast := @Text.split_append '/' (slashed pieces) ""
      rw [String.append_empty, split_slashed plain] at cutLast
      exact cutLast
  cases first : Text.split '/' (before ++ ":") with
  | nil => exact Text.splitChars_ne_nil _ (List.map_eq_nil_iff.mp first)
  | cons head others =>
    rw [parts, first, List.cons_append, List.cons.injEq] at pieces'
    have nonempty : Text.split '/' after ≠ [] :=
      fun isNil => Text.splitChars_ne_nil _ (List.map_eq_nil_iff.mp isNil)
    have inside : "" ∈ (others ++ "" :: Text.split '/' after).dropLast := by
      rw [List.dropLast_append_of_ne_nil (by simp), List.dropLast_cons_of_ne_nil nonempty]
      simp
    rw [pieces'.2] at inside
    have listed : "" ∈ pieces := by
      cases slash with
      | false => exact List.mem_of_mem_dropLast (by simpa using inside)
      | true => simpa using inside
    exact (plain "" listed).1 rfl

theorem splitOnce_href (resource : DavResource) (slash : Bool) :
    Text.splitOnce "://" (resource.href coding ++ if slash then "/" else "") = none := by
  obtain ⟨repoId, path, uuid, normal, short⟩ := resource
  obtain ⟨parts, rfl, legal⟩ := (safeNormalizePath_legal normal).1
  have plain := plainNames_of_legal legal
  unfold DavResource.href buildHref
  dsimp only
  rw [pathOf_eq]
  split
  · -- The root may end in two slashes, and has no colon.
    rw [encode_slash]
    by_contra some
    obtain ⟨⟨before, after⟩, cut⟩ := Option.ne_none_iff_exists'.mp some
    have colon : ':' ∈ ("/dav/" ++ repoId ++ "/" ++ if slash then "/" else "").toList := by
      rw [eq_of_splitOnce cut]
      simp
    have absent : ':' ∉ repoId.toList := uuid.not_mem (by decide)
    cases slash <;> simp [absent] at colon
  · have pieces : PlainNames ("dav" :: repoId :: parts.map coding.encode) := by
      intro piece listed
      rcases List.mem_cons.mp listed with rfl | listed
      · decide
      · rcases List.mem_cons.mp listed with rfl | listed
        · exact ⟨uuid.ne_empty, uuid.not_mem (by decide)⟩
        · exact plainNames_encode coding plain piece listed
    have text : "/dav/" ++ repoId ++ coding.encode (slashed parts) =
        slashed ("dav" :: repoId :: parts.map coding.encode) := by
      rw [encode_slashed]
      apply String.toList_inj.mp
      simp [slashed, String.join_cons]
    rw [text]
    exact splitOnce_slashed pieces slash

theorem UrlOrigin.splitOnce_text (origin : UrlOrigin) (rest : String) :
    Text.splitOnce "://" (origin.text ++ rest) =
      some (origin.scheme, origin.authority ++ rest) := by
  have cut : Text.cutAround "://".toList
      (origin.scheme.toList ++ "://".toList ++ (origin.authority ++ rest).toList) =
        some (origin.scheme.toList, (origin.authority ++ rest).toList) := by
    refine Text.cutAround_append fun char others isSuffix begins => origin.noCut ?_
    refine List.IsInfix.trans ?_ isSuffix.isInfix
    -- What begins in the scheme ends in it: the separator has its colon in front only.
    rcases others with _ | ⟨second, _ | ⟨third, others⟩⟩
    · simp [List.cons_prefix_cons] at begins
    · simp [List.cons_prefix_cons] at begins
    · obtain ⟨rfl, rfl, rfl⟩ : char = ':' ∧ second = '/' ∧ third = '/' := by
        simpa [List.cons_prefix_cons, eq_comm] using begins
      exact ⟨[], others, rfl⟩
  have text : (origin.text ++ rest).toList =
      origin.scheme.toList ++ "://".toList ++ (origin.authority ++ rest).toList := by
    simp [UrlOrigin.text]
  rw [Text.splitOnce, text, cut]
  simp

theorem urlPath_authority {authority : String} (noSlash : '/' ∉ authority.toList) (rest : String) :
    urlPath (authority ++ ("/" ++ rest)) = .ok ("/" ++ rest) := by
  unfold urlPath
  cases chars : authority.toList with
  | nil =>
    obtain rfl := String.toList_eq_nil_iff.mp chars
    rw [String.empty_append, if_pos (by simp)]
  | cons char others =>
    have other : char ≠ '/' := fun same => noSlash (by simp [chars, same])
    have cut := @Text.splitOnce_append '/' authority rest noSlash
    have slash : String.singleton '/' = "/" := rfl
    rw [slash, String.append_assoc] at cut
    rw [if_neg (by simp [chars, other]), cut]

/-- What `parse_destination` makes of the path of a URL. -/
theorem decoded_href (resource : DavResource) (slash : Bool) :
    coding.decode (Text.beforeAny ['?', '#']
      (resource.href coding ++ if slash then "/" else "")) =
      "/dav/" ++ resource.repoId ++ resource.path ++ if slash then "/" else "" := by
  have stops : ∀ char ∈ ['?', '#'], char ≠ '%' ∧ char.isAlphanum = false ∧
      hrefEncodeSet char = true ∧ char ∉ "/dav/".toList ∧ char ≠ '/' := by
    rw [List.forall_mem_cons, List.forall_mem_singleton]
    decide
  have others : ∀ char ∈ ['?', '#', '%'], isAsciiHexdigit char = false ∧ char ≠ '-' := by
    rw [List.forall_mem_cons, List.forall_mem_cons, List.forall_mem_singleton]
    decide
  have plainId : ∀ char ∈ ['?', '#', '%'], char ∉ resource.repoId.toList :=
    fun char listed => resource.uuid.not_mem (others char listed)
  have kept : Text.beforeAny ['?', '#'] (resource.href coding ++ if slash then "/" else "") =
      resource.href coding ++ if slash then "/" else "" := by
    apply String.toList_inj.mp
    rw [Text.beforeAny, String.toList_ofList]
    refine List.takeWhile_eq_self_iff.mpr fun char listed => decide_eq_true fun stop => ?_
    have inId := plainId char (List.mem_append_left ['%'] stop)
    have apart := stops char stop
    have inPath : char ∉ (coding.encode resource.path).toList := by
      intro member
      have free := (coding.mem_encode apart.1 apart.2.1 member).2
      rw [apart.2.2.1] at free
      cases free
    rw [DavResource.href, buildHref, String.toList_append, String.toList_append,
      String.toList_append] at listed
    have inEnd : char ∉ (if slash then "/" else "").toList := by
      cases slash <;> simp [apart.2.2.2.2]
    simp only [List.mem_append, apart.2.2.2.1, inId, inPath, inEnd, or_self] at listed
  rw [kept]
  refine coding.inverse ("/dav/" ++ resource.repoId) resource.path _ ?_ ?_
  · rw [String.toList_append, List.mem_append, not_or]
    exact ⟨by decide, plainId '%' (by decide)⟩
  · cases slash <;> decide

theorem DavResource.spelled (resource : DavResource) (slash : Bool) :
    safeNormalizePath (resource.path ++ if slash then "/" else "") = .ok resource.path := by
  cases slash with
  | false =>
    rw [if_neg Bool.false_ne_true, String.append_empty]
    exact resource.normal
  | true =>
    rw [if_pos rfl]
    exact safeNormalizePath_slash resource.normal resource.short

theorem parseDestination_href (resource : DavResource) (origin : Option UrlOrigin) (slash : Bool) :
    parseDestination coding.decode (destinationOf origin (resource.href coding) slash) =
      .ok (resource.repoId, resource.path) := by
  have decoded := decoded_href coding resource slash
  have noScheme := splitOnce_href coding resource slash
  have normal := resource.spelled slash
  have rooted : ∃ rest, resource.href coding ++ (if slash then "/" else "") = "/" ++ rest :=
    ⟨"dav/" ++ resource.repoId ++ coding.encode resource.path ++ if slash then "/" else "",
      String.toList_inj.mp (by simp [DavResource.href, buildHref])⟩
  obtain ⟨inner, isPath⟩ : ∃ inner, resource.path = "/" ++ inner := by
    obtain ⟨parts, isParts, -⟩ :=
      canonicalizePath_ok_iff.mp (safeNormalizePath_legal resource.normal).2
    obtain ⟨rest, chars⟩ := List.head?_eq_some_iff.mp (canonicalParts_ok_iff.mp isParts).2.1
    exact ⟨String.ofList rest, String.toList_inj.mp (by simp [chars])⟩
  unfold destinationOf
  rw [String.append_assoc]
  generalize resource.href coding ++ (if slash then "/" else "") = text at decoded noScheme rooted ⊢
  generalize (if slash then "/" else "") = tail at decoded normal
  obtain ⟨rest, rfl⟩ := rooted
  refine except_bind_ok_iff.mpr ⟨"/" ++ rest, ?_, ?_⟩
  · cases origin with
    | none =>
      have atRoot := @urlPath_authority "" List.not_mem_nil rest
      rw [String.empty_append] at atRoot
      rw [Option.elim_none, String.empty_append, noScheme]
      exact atRoot
    | some origin =>
      rw [Option.elim_some, origin.splitOnce_text]
      exact urlPath_authority origin.noSlash rest
  · have strip : Text.stripPrefix "/dav/" ("/dav/" ++ resource.repoId ++ resource.path ++ tail) =
        some (resource.repoId ++ "/" ++ (inner ++ tail)) := by
      rw [isPath]
      simp [Text.stripPrefix, String.append_assoc]
    have noSlash : '/' ∉ resource.repoId.toList := resource.uuid.not_mem (by decide)
    have cut : Text.splitOnce "/" (resource.repoId ++ "/" ++ (inner ++ tail)) =
        some (resource.repoId, inner ++ tail) :=
      @Text.splitOnce_append '/' resource.repoId (inner ++ tail) noSlash
    have isText : (if inner ++ tail = "" then "/" else "/" ++ (inner ++ tail)) =
        resource.path ++ tail := by
      rw [isPath, String.append_assoc]
      split
      · rename_i isEmpty
        rw [isEmpty]
        rfl
      · rfl
    rw [decoded, strip]
    dsimp only
    rw [cut, Option.getD_some, if_neg resource.uuid.ne_empty, isText, normal]
    rfl

def escapeByte (byte : UInt8) : List Char := '%' :: (encodeByte byte).map Char.toUpper

def percentEncodeChar (escaped : Char → Bool) (char : Char) : List Char :=
  if char.toNat < 128 ∧ escaped char = false then [char]
  else (String.utf8EncodeChar char).flatMap escapeByte

/-- A `%` that no two digits follow stands for itself. -/
def percentDecodeChars : List Char → List UInt8
  | '%' :: high :: low :: rest =>
    match hexVal high, hexVal low with
    | some first, some second => UInt8.ofNat (first * 16 + second) :: percentDecodeChars rest
    | _, _ => String.utf8EncodeChar '%' ++ percentDecodeChars (high :: low :: rest)
  | char :: rest => String.utf8EncodeChar char ++ percentDecodeChars rest
  | [] => []

theorem percentDecodeChars_cons {char : Char} (other : char ≠ '%') (rest : List Char) :
    percentDecodeChars (char :: rest) = String.utf8EncodeChar char ++ percentDecodeChars rest := by
  rw [percentDecodeChars]
  exact fun _ _ _ percent => absurd percent other

theorem percentDecodeChars_plain {first : List Char} (plain : '%' ∉ first) (rest : List Char) :
    percentDecodeChars (first ++ rest) = ByteOrder.encode first ++ percentDecodeChars rest := by
  induction first with
  | nil => rfl
  | cons char others ih =>
    obtain ⟨other, plain⟩ := not_or.mp (mt List.mem_cons.mpr plain)
    rw [List.cons_append, percentDecodeChars_cons (Ne.symm other), ih plain,
      ByteOrder.encode_cons, List.append_assoc]

theorem upperDigit {digit : Nat} (small : digit < 16) :
    hexVal (Nat.digitChar digit).toUpper = some digit ∧
      (Nat.digitChar digit).toUpper.isAlphanum = true := by
  have each : ∀ digit : Fin 16, hexVal (Nat.digitChar digit).toUpper = some digit.val ∧
      (Nat.digitChar digit).toUpper.isAlphanum = true := by decide
  exact each ⟨digit, small⟩

theorem percentDecodeChars_escapes (bytes : List UInt8) (rest : List Char) :
    percentDecodeChars (bytes.flatMap escapeByte ++ rest) = bytes ++ percentDecodeChars rest := by
  induction bytes with
  | nil => rfl
  | cons byte bytes ih =>
    obtain ⟨high, low⟩ := encodeByte_digits byte
    have whole : byte.toNat / 16 * 16 + byte.toNat % 16 = byte.toNat := by omega
    simp only [List.flatMap_cons, escapeByte, encodeByte, List.map_cons, List.map_nil,
      List.cons_append, List.nil_append, percentDecodeChars, (upperDigit high).1,
      (upperDigit low).1, whole, UInt8.ofNat_toNat, ih]

variable {escaped : Char → Bool}

theorem percentDecodeChars_encoded (percent : escaped '%' = true) (chars rest : List Char) :
    percentDecodeChars (chars.flatMap (percentEncodeChar escaped) ++ rest) =
      ByteOrder.encode chars ++ percentDecodeChars rest := by
  induction chars with
  | nil => rfl
  | cons char chars ih =>
    rw [List.flatMap_cons, List.append_assoc, ByteOrder.encode_cons, List.append_assoc, ← ih]
    unfold percentEncodeChar
    split
    · rename_i kept
      refine percentDecodeChars_cons ?_ _
      rintro rfl
      rw [percent] at kept
      cases kept.2
    · exact percentDecodeChars_escapes _ _

/-- `utf8_percent_encode` and `percent_decode_str`; what is no text is not replaced here. -/
def percentCoding (percent : escaped '%' = true) : PercentCoding escaped where
  encode text := String.ofList (text.toList.flatMap (percentEncodeChar escaped))
  decode text := (Bytes.fromUtf8 (percentDecodeChars text.toList)).getD ""
  append first second := by simp
  keeps char ascii free := by simp [percentEncodeChar, ascii, free]
  escapes char written := by
    have chars : percentEncodeChar escaped char =
        (String.utf8EncodeChar char).flatMap escapeByte := by
      refine if_neg fun kept => ?_
      rw [written kept.1] at kept
      cases kept.2
    constructor
    · cases bytes : String.utf8EncodeChar char with
      | nil => exact absurd bytes String.utf8EncodeChar_ne_nil
      | cons byte rest => simp [chars, bytes, escapeByte]
    · intro sign listed
      obtain ⟨byte, -, isSign⟩ : ∃ byte ∈ String.utf8EncodeChar char, sign ∈ escapeByte byte := by
        simpa [chars] using listed
      obtain ⟨high, low⟩ := encodeByte_digits byte
      simp only [escapeByte, encodeByte, List.map_cons, List.map_nil, List.mem_cons,
        List.not_mem_nil, or_false] at isSign
      rcases isSign with percent | rfl | rfl
      · exact Or.inl percent
      · exact Or.inr (upperDigit high).2
      · exact Or.inr (upperDigit low).2
  inverse first text last plainFirst plainLast := by
    have ends := percentDecodeChars_plain plainLast []
    rw [List.append_nil] at ends
    have isText : Bytes.fromUtf8 (percentDecodeChars
        (first ++ String.ofList (text.toList.flatMap (percentEncodeChar escaped)) ++ last).toList) =
          some (first ++ text ++ last) := by
      simp [Bytes.fromUtf8_eq_some_iff, ByteOrder.asBytes_eq_encode, ByteOrder.encode,
        percentDecodeChars_plain plainFirst, percentDecodeChars_encoded percent, ends,
        percentDecodeChars]
    exact congrArg (Option.getD · "") isText

/-- Every spelling of an href leads to its resource, and so no two resources have one in
common. -/
theorem href_leads_back :
    (∀ (resource : DavResource) (origin : Option UrlOrigin) (slash : Bool),
      parseDestination coding.decode (destinationOf origin (resource.href coding) slash) =
        .ok (resource.repoId, resource.path)) ∧
    ∀ (first second : DavResource) (origin origin' : Option UrlOrigin) (slash slash' : Bool),
      destinationOf origin (first.href coding) slash =
        destinationOf origin' (second.href coding) slash' →
      first.repoId = second.repoId ∧ first.path = second.path := by
  refine ⟨parseDestination_href coding, fun first second origin origin' slash slash' same => ?_⟩
  have both := parseDestination_href coding first origin slash
  rw [same, parseDestination_href coding second origin' slash', Except.ok.injEq,
    Prod.mk.injEq] at both
  exact ⟨both.1.symm, both.2.symm⟩

def escapedResource : DavResource where
  repoId := "0f8fad5b-d9cb-469f-a165-70867728950e"
  path := "/50% ü?"
  uuid := by decide
  normal := by decide +kernel
  short := by decide

def httpsOrigin : UrlOrigin := ⟨"https", "files", by decide, by decide⟩

/-- The path has a percent sign, a blank, a letter of two bytes and a question mark. -/
theorem escaped_href_leads_back :
    parseDestination (percentCoding rfl : PercentCoding hrefEncodeSet).decode
      "https://files/dav/0f8fad5b-d9cb-469f-a165-70867728950e/50%25%20%C3%BC%3F/" =
      .ok ("0f8fad5b-d9cb-469f-a165-70867728950e", "/50% ü?") :=
  (href_leads_back (percentCoding rfl)).1 escapedResource (some httpsOrigin) true

end Nanofile
