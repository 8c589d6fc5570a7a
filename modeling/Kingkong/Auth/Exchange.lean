import Kingkong.Auth.Model
import Kingkong.Crypto.Base64
import Kingkong.Crypto.Rsa
import Kingkong.Url.Query
import Kingkong.Xauth.Request
import Kingkong.Xauth.Response

/-!
The bytes of an authorization: a request on its way into a URL and out of it again at the server,
and a response on its way from the server to the delegate.
-/

namespace Kingkong.Auth
open Lib Crypto Protobuf

/-! ### The request -/

/-- What `AuthRequest` sets in the request. -/
def requestOf (info : AuthInfo) : Xauth.Request where
  type := some info.productType
  version := some info.version
  token := some info.token
  deviceid := some info.deviceId
  randomid := some info.randomId

def dataParameter : Bytes := text "data="

/-- The URL that `AuthRequest` asks for. Neither the result of `SerializeToString` nor that of
`EncryptByPublicKey` is looked at. `set_type` tests its argument with an `assert`. -/
def authUrl (evp : Evp) (ndebug : Bool) (rsa : Option Rsa) (url : Bytes) (info : AuthInfo) :
    Option Bytes :=
  if !ndebug && info.productType != 0 then none
  else do
    let (serial, _) ← (requestOf info).serializeToString ndebug
    match encryptByPublicKey ndebug rsa serial [] with
    | .returned _ chipText => do
      let base64ChipText ← base64EncodeUrlSafe evp chipText
      some (url ++ text "?data=" ++ base64ChipText)
    | .aborted | .undefined => none

/-- A server that opens the parameter with the functions of the library. -/
def serverReads (evp : Evp) (rsa : Rsa) (data : Bytes) : Option (Xauth.Request × Bool) := do
  let chipText ← base64Decode evp (plainBase64 data)
  match decryptByPrivateKey (some rsa) chipText [] with
  | .returned true serial => some (Xauth.Request.parseFromString serial)
  | _ => none

section Request

variable {evp : Evp} {rsa : Rsa} {info : AuthInfo} {ndebug : Bool} {url : Bytes}

theorem isUrlChar_of_isUrlSafe {c : UInt8} (safe : isUrlSafe c = true) :
    Url.isUrlChar c = true := by
  have all : ∀ n < 256, isUrlSafe (UInt8.ofNat n) = true → Url.isUrlChar (UInt8.ofNat n) =
      true := by decide +kernel
  have small := c.toNat_lt
  have := all c.toNat (by omega)
  rw [UInt8.ofNat_toNat] at this
  exact this safe

theorem received_requestOf (info : AuthInfo) :
    (requestOf info).received.isInitialized = decide (info.productType = 0) := by
  unfold Xauth.Request.received requestOf
  dsimp only
  split <;> simp_all [Xauth.Request.isInitialized]

theorem requestOf_readable (short : (requestOf info).byteSizeLong ≤ maxSize) :
    (requestOf info).Readable := by
  have size := Xauth.Request.byteSizeLong_eq (requestOf info)
  unfold Xauth.Request.requiredFieldsByteSizeFallback at size
  refine ⟨fun data member => ?_, fun data member => ?_, fun data member => ?_, nofun⟩
  · exact Nat.le_trans (length_le_sizePresent data member) (by omega)
  · exact Nat.le_trans (length_le_sizePresent data member) (by omega)
  · exact Nat.le_trans (length_le_sizePresent data member) (by omega)

theorem dataParameter_lead : text "?data=" = Url.byte '?' :: dataParameter := by decide +kernel

theorem dataParameter_visible : ∀ c ∈ dataParameter, Url.isUrlChar c = true := by
  have all : dataParameter.all Url.isUrlChar = true := by decide +kernel
  exact List.all_eq_true.mp all

/-- How long the parameter of a request of `n` bytes is, at most. -/
def parameterLength (n : Nat) : Nat := 4 * ((128 * pieces n + 2) / 3)

theorem le_parameterLength (n : Nat) : n ≤ parameterLength n := by
  unfold parameterLength pieces
  omega

/-- The ciphertext of a request, and what is read from it. -/
theorem requestOf_sealed (matching : rsa.Matching)
    (succeed : ∀ n piece, piece.length ≤ 100 → (rsa.publicEncrypt n piece).isSome)
    (short : parameterLength (requestOf info).byteSizeLong < 65536) (ndebug : Bool) :
    ∃ serial chipText, (requestOf info).serializeToString ndebug = some (serial, true) ∧
      encryptByPublicKey ndebug (some rsa) serial [] = .returned true chipText ∧
      chipText.length = 128 * pieces (requestOf info).byteSizeLong ∧
      decryptByPrivateKey (some rsa) chipText [] = .returned true serial ∧
      Xauth.Request.parseFromString serial =
        ((requestOf info).received, (requestOf info).received.isInitialized) := by
  have few := le_parameterLength (requestOf info).byteSizeLong
  have readable : (requestOf info).Readable :=
    requestOf_readable (by unfold maxSize kSlopBytes; omega)
  have complete : (ndebug || (requestOf info).isInitialized) = true := Bool.or_true ndebug
  obtain ⟨serial, serialized, length, parsed⟩ :=
    Xauth.Request.request_received complete readable (by omega)
  have nonempty : serial ≠ [] := by
    rintro rfl
    rw [Xauth.Request.byteSizeLong_eq, Xauth.Request.requiredFieldsByteSizeFallback] at length
    simp only [requestOf, sizePresent, List.length_nil] at length
    omega
  have made : ∀ i < pieces serial.length, (block rsa serial i).isSome :=
    fun i _ => succeed i _ (piece_length_le serial i)
  have fits : encResultLen serial.length < 2 ^ 31 := by
    rw [encResultLen_eq, length]
    unfold parameterLength at short
    omega
  refine ⟨serial, _, serialized, encrypt_success ndebug nonempty fits made [], ?_,
    decrypt_joined matching fits made [], parsed⟩
  rw [joined_length made (Nat.le_refl _), length]

/-- The text of the parameter, and what is read from it. -/
theorem authUrl_text (standard : evp.Standard) (matching : rsa.Matching)
    (succeed : ∀ n piece, piece.length ≤ 100 → (rsa.publicEncrypt n piece).isSome)
    (valid : ndebug = true ∨ info.productType = 0)
    (short : parameterLength (requestOf info).byteSizeLong < 65536) (url : Bytes) :
    ∃ data, authUrl evp ndebug (some rsa) url info = some (url ++ text "?data=" ++ data) ∧
      (∀ c ∈ data, isUrlSafe c = true) ∧
      data.length ≤ parameterLength (requestOf info).byteSizeLong ∧
      serverReads evp rsa data =
        some ((requestOf info).received, decide (info.productType = 0)) := by
  obtain ⟨serial, chipText, serialized, sealed, blocks, opened, parsed⟩ :=
    requestOf_sealed matching succeed short ndebug
  have small : chipText.length < 2 ^ 30 := by
    unfold parameterLength at short
    omega
  have encoded : base64EncodeUrlSafe evp chipText = some _ :=
    base64EncodeUrlSafe_eq standard (by omega)
  have groups := sextets_length chipText
  refine ⟨(sextets chipText).map fun n => urlSafe (digit64 n), ?_, ?_, ?_, ?_⟩
  · have fine : (!ndebug && info.productType != 0) = false := by
      rcases valid with rfl | zero
      · rfl
      · rw [zero, bne_self_eq_false, Bool.and_false]
    unfold authUrl
    rw [fine, if_neg Bool.false_ne_true, serialized]
    simp only [Option.bind_eq_bind, Option.bind_some, sealed, encoded]
  · intro c member
    obtain ⟨n, inside, rfl⟩ := List.mem_map.mp member
    exact (digit64_urlSafe (sextets_lt chipText n inside)).2.1
  · rw [List.length_map]
    unfold parameterLength
    omega
  · unfold serverReads
    rw [plainBase64_sextets, base64Decode_encode64 standard small]
    simp only [Option.bind_eq_bind, Option.bind_some, opened, parsed, received_requestOf]

/-- For a URL with a schema and a path, but without a query or a fragment, and a request that leaves
the URL within reach of a 16-bit offset: the request goes to the server that the URL names, under
its path, and with all that was put into it. A server that has the same enumeration accepts it if
the product is in it. -/
theorem auth_request_arrives (standard : evp.Standard) (matching : rsa.Matching)
    (succeed : ∀ n piece, piece.length ≤ 100 → (rsa.publicEncrypt n piece).isSome)
    (valid : ndebug = true ∨ info.productType = 0) (accepted : Url.HasSchema url)
    (path : (Url.components url).path ≠ []) (noQuery : (Url.components url).query = none)
    (noFragment : (Url.components url).fragment = none)
    (short : url.length + 6 + parameterLength (requestOf info).byteSizeLong < 65536) :
    ∃ data client, authUrl evp ndebug (some rsa) url info = some (url ++ text "?data=" ++ data) ∧
      Url.createHttpClient ndebug { url := url ++ text "?data=" ++ data } = some client ∧
      Url.Names (Url.components url) client ∧
      client.request.path = (Url.components url).path ++ text "?data=" ++ data ∧
      serverReads evp rsa data =
        some ((requestOf info).received, decide (info.productType = 0)) := by
  obtain ⟨data, sent, safe, length, read⟩ := authUrl_text standard matching succeed valid (by omega) url
  have visible : ∀ c ∈ dataParameter ++ data, Url.isUrlChar c = true := by
    intro c member
    rcases List.mem_append.mp member with member | member
    · exact dataParameter_visible c member
    · exact isUrlChar_of_isUrlSafe (safe c member)
  have five : dataParameter.length = 5 := by decide +kernel
  have most : (url ++ Url.byte '?' :: (dataParameter ++ data)).length < 65536 := by
    simp only [List.length_append, List.length_cons, five]
    omega
  have question (front : Bytes) : front ++ text "?data=" ++ data =
      front ++ Url.byte '?' :: (dataParameter ++ data) := by
    rw [dataParameter_lead, List.append_assoc]
    rfl
  have goes : ∃ client, Url.createHttpClient ndebug { url := url ++ text "?data=" ++ data } =
      some client ∧ _ :=
    Url.client_query (question url) accepted path noQuery noFragment visible most
  obtain ⟨client, created, names, target⟩ := goes
  exact ⟨data, client, sent, created, names, target.trans (question _).symm, read⟩

/-- The URL of a server, and a request for it. -/
def loginUrl : Bytes := text "http://h/p"

def loginInfo : AuthInfo := authInfo 0 0 1 [65] [66]

theorem auth_request_arrives_login :
    ∃ data client, authUrl rfc4648 false (some plainBlocks) loginUrl loginInfo =
        some (loginUrl ++ text "?data=" ++ data) ∧
      Url.createHttpClient false { url := loginUrl ++ text "?data=" ++ data } = some client ∧
      Url.Names (Url.components loginUrl) client ∧
      client.request.path = (Url.components loginUrl).path ++ text "?data=" ++ data ∧
      serverReads rfc4648 plainBlocks data =
        some ((requestOf loginInfo).received, decide (loginInfo.productType = 0)) :=
  auth_request_arrives rfc4648_standard plainBlocks_matching (fun _ _ _ => rfl) (.inr rfl)
    (Url.hasSchema_of_decide (by decide +kernel)) (by decide +kernel) (by decide +kernel)
    (by decide +kernel) (by decide +kernel)

end Request

/-! ### The response -/

/-- The functions of the library. A string whose length is no `int32_t` is not decoded. -/
def library (evp : Evp) (rsaVerify : Bytes → Bytes → Bool) : Given where
  base64Decode buffer := (Crypto.base64Decode evp buffer).getD []
  parseFromString data :=
    let (response, parsed) := Xauth.Response.parseFromString data
    (parsed,
      { code := response.code.getD 0, signature := response.signature.getD [], desc := response.desc.getD [] })
  rsaVerify := rsaVerify

namespace AuthManager

variable {m : AuthManager} {c : Nat}

/-- What is appended for one client is not seen by another. -/
theorem find_append (m : AuthManager) (c d : Nat) (content : Bytes) :
    (m.append d content).find c =
      (m.find c).map fun info =>
        if d = c then { info with responseData := info.responseData ++ content } else info := by
  unfold find append
  dsimp only
  induction m.authMap with
  | nil => rfl
  | cons entry rest ih =>
    by_cases own : isOf d entry = true
    · rw [appendTo, if_pos own]
      by_cases same : d = c
      · subst same
        rw [List.find?_cons_of_pos own, List.find?_cons_of_pos (by exact own)]
        simp
      · have other : ¬ isOf c entry = true := by
          simp only [isOf, beq_iff_eq] at own ⊢
          rw [own]
          exact same
        rw [List.find?_cons_of_neg (by exact other), List.find?_cons_of_neg other]
        simp only [if_neg same, Option.map_id_fun']
        rfl
    · rw [appendTo, if_neg own]
      by_cases found : isOf c entry = true
      · have different : d ≠ c := by
          rintro rfl
          exact own found
        rw [List.find?_cons_of_pos found, List.find?_cons_of_pos found]
        simp [different]
      · rw [List.find?_cons_of_neg found, List.find?_cons_of_neg found, ih]

/-- The contents that arrive one by one, for any clients and in any order. -/
def receive (m : AuthManager) (contents : List (Nat × Bytes)) : AuthManager :=
  contents.foldl (fun m content => m.append content.1 content.2) m

theorem find_receive (m : AuthManager) (c : Nat) (contents : List (Nat × Bytes)) :
    (m.receive contents).find c = (m.find c).map fun info =>
      { info with responseData := info.responseData ++ (contents.filter (·.1 == c)).flatMap Prod.snd } := by
  unfold receive
  induction contents generalizing m with
  | nil => simp
  | cons content contents ih =>
    rw [List.foldl_cons, ih, find_append, Option.map_map]
    congr 1
    funext info
    by_cases own : content.1 = c
    · simp [own]
    · simp [own]

end AuthManager

section Response

variable {evp : Evp} {m : Xauth.Response} {info : AuthInfo} {verify : Bytes → Bytes → Bool}
  {ndebug : Bool}

/-- The status that a code and a signature deserve. -/
def Given.statusOf (given : Given) (info : AuthInfo) (code : Int32) (signature : Bytes) : Int :=
  if code ≠ 200 then code.toInt
  else if given.rsaVerify (signatureSource info) (given.base64Decode signature) then 200 else 401

theorem handle_ok (given : Given) (info : AuthInfo) (httpCode : Nat) (ok : httpCode = 200) :
    handleAuthResponse given info httpCode =
      let response := (given.parseFromString (given.base64Decode info.responseData)).2
      ⟨info.delegate, given.statusOf info response.code response.signature, response.desc⟩ := by
  have success : ((200 : Int32)).toInt = 200 := by decide
  unfold handleAuthResponse Given.statusOf
  rw [if_neg (not_not.mpr ok)]
  dsimp only
  generalize (given.parseFromString (given.base64Decode info.responseData)).2 = response
  by_cases code : response.code = 200
  · rw [if_neg (not_not.mpr code), if_neg (not_not.mpr code), code, success]
    split <;> rfl
  · rw [if_pos code, if_pos code]

/-- What is reported for the bytes that the text is decoded to. -/
theorem handle_decoded {received data : Bytes} (decoded : base64Decode evp received = some data)
    (info : AuthInfo) :
    handleAuthResponse (library evp verify) { info with responseData := received } 200 =
      let response := (Xauth.Response.parseFromString data).1
      ⟨info.delegate, (library evp verify).statusOf info (response.code.getD 0) (response.signature.getD []),
        response.desc.getD []⟩ := by
  have bytes : (library evp verify).base64Decode received = data := by
    simp only [library, decoded, Option.getD_some]
  rw [handle_ok _ _ _ rfl, bytes]
  rfl

/-- A response is reported as the server meant it, in whatever pieces it arrives and whatever
arrives for others in between. If the text ends too early, it depends on the place: at most places
nothing is decoded, but where whole groups end behind the signature the status is the one of the
whole response. The description may then be any text. -/
theorem auth_response_cut {manager : AuthManager} {c : Nat} (standard : evp.Standard)
    (checked : (ndebug || m.isInitialized) = true) (readable : m.Readable) (known : m.unknown = [])
    (small : m.byteSizeLong < 2 ^ 29) (found : manager.find c = some info)
    (fresh : info.responseData = []) :
    ∃ serial text, m.serializeToString ndebug = some (serial, true) ∧
      base64Encode evp serial = some text ∧
      ∀ k contents, (contents.filter (·.1 == c)).flatMap Prod.snd = text.take k →
        ∃ after, (manager.receive contents).find c = some after ∧
          (text.length ≤ k → handleAuthResponse (library evp verify) after 200 =
            ⟨info.delegate, (library evp verify).statusOf info (m.code.getD 0) (m.signature.getD []),
              m.desc.getD []⟩) ∧
          (k < text.length → k % 4 ≠ 0 →
            handleAuthResponse (library evp verify) after 200 = ⟨info.delegate, 0, []⟩) ∧
          (k % 4 = 0 → (plain m.required).length ≤ 3 * (k / 4) →
            (handleAuthResponse (library evp verify) after 200).status =
            (library evp verify).statusOf info (m.code.getD 0) (m.signature.getD [])) := by
  obtain ⟨serialized, length⟩ :=
    (Xauth.Response.written readable.hasForm_unknown (by omega)).serializes checked (by omega)
  have text := encode64_length (plain m.fields)
  refine ⟨_, _, serialized, base64Encode_eq standard (by omega), fun k contents arrived => ?_⟩
  have received := AuthManager.find_receive manager c contents
  rw [found, arrived, Option.map_some, fresh, List.nil_append] at received
  refine ⟨_, received, ?_, ?_, ?_⟩
  · intro whole
    have decoded : base64Decode evp ((encode64 (plain m.fields)).take k) = some (plain m.fields) := by
      rw [List.take_of_length_le whole, base64Decode_encode64 standard (by omega)]
    rw [handle_decoded decoded, Xauth.Response.parse_fields readable]
  · intro early ragged
    have short : ((encode64 (plain m.fields)).take k).length = k :=
      List.length_take_of_le (by omega)
    have decoded : base64Decode evp ((encode64 (plain m.fields)).take k) = some [] :=
      base64Decode_ragged standard (by omega) (by omega)
    rw [handle_decoded decoded]
    rfl
  · intro groups behind
    have fits : ((plain m.fields).take (3 * (k / 4))).length < 2 ^ 29 := by
      rw [List.length_take]
      omega
    have decoded : base64Decode evp ((encode64 (plain m.fields)).take k) =
        some ((plain m.fields).take (3 * (k / 4))) := by
      rw [show k = 4 * (k / 4) by omega, encode64_take, base64Decode_encode64 standard (by omega)]
      congr 2
      omega
    obtain ⟨code, signature⟩ := Xauth.Response.parse_cut readable known behind
    rw [handle_decoded decoded]
    dsimp only
    rw [code, signature]

def refused : Xauth.Response := { code := some 403, signature := some [], desc := some [65, 66] }

def waiting : AuthManager := { authMap := [(1, loginInfo)] }

theorem auth_response_cut_refused : ∃ serial text,
    refused.serializeToString false = some (serial, true) ∧ base64Encode rfc4648 serial = some text ∧
      ∀ k contents, (contents.filter (·.1 == 0)).flatMap Prod.snd = text.take k →
        ∃ after, (waiting.receive contents).find 0 = some after ∧
        (text.length ≤ k → handleAuthResponse (library rfc4648 fun _ _ => false) after 200 =
          ⟨0, (library rfc4648 fun _ _ => false).statusOf loginInfo 403 [], [65, 66]⟩) ∧
        (k < text.length → k % 4 ≠ 0 → handleAuthResponse (library rfc4648 fun _ _ => false) after 200 =
          ⟨0, 0, []⟩) ∧
        (k % 4 = 0 → (plain refused.required).length ≤ 3 * (k / 4) →
          (handleAuthResponse (library rfc4648 fun _ _ => false) after 200).status =
            (library rfc4648 fun _ _ => false).statusOf loginInfo 403 []) := by
  have readable : refused.Readable :=
    ⟨by simp [refused], by simp [refused, maxSize, kSlopBytes], nofun, nofun⟩
  have found : waiting.find 0 = some loginInfo := rfl
  exact auth_response_cut rfc4648_standard rfl readable rfl (by decide) found rfl

/-- What is reported for the first `k` characters of the text. -/
def reportedUpTo (k : Nat) (m : Xauth.Response) : DelegateCall :=
  let text := (m.serializeToString false).bind fun serial => base64Encode rfc4648 serial.1
  handleAuthResponse (library rfc4648 fun _ _ => false) { loginInfo with responseData := (text.getD []).take k } 200

-- Of a description of five letters two arrive, and the others are read from behind the end.
example :
    let reported := reportedUpTo 12
      { code := some 403, signature := some [], desc := some [65, 66, 67, 68, 69] }
    reported.status = 403 ∧ reported.desc = [65, 66, 0, 0, 0] := by
  decide +kernel

end Response

end Kingkong.Auth
