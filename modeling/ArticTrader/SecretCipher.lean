import ArticTrader.Base64
import ArticTrader.SecretsPush

/-!
The cipher under which the hub stores the secrets of its users, over AES-GCM.
-/

namespace ArticTrader.SecretCipher

open ArticTrader.Base64
open ArticTrader.DecisionAttestation (utf8)
open ArticTrader.PythonText (Text)
open ArticTrader.SecretsPush

def NONCE_LEN : ℕ := 12

/-- `AESGCM`: the key comes first, then nonce, data and associated data; `none` stands for what
is raised. -/
structure AESGCM where
  encrypt : List UInt8 → List UInt8 → List UInt8 → List UInt8 → List UInt8
  decrypt : List UInt8 → List UInt8 → List UInt8 → List UInt8 → Option (List UInt8)

/-- The documented behaviour: a tag of 16 bytes is appended, and nothing is decrypted but what
is encrypted so. -/
structure AESGCM.Lawful (cipher : AESGCM) : Prop where
  tagged : ∀ key nonce data aad, (cipher.encrypt key nonce data aad).length = data.length + 16
  opens : ∀ key nonce data aad, nonce.length = NONCE_LEN →
    cipher.decrypt key nonce (cipher.encrypt key nonce data aad) aad = some data
  authentic : ∀ key nonce blob aad data, cipher.decrypt key nonce blob aad = some data →
    blob = cipher.encrypt key nonce data aad

/-- `bytes.decode()` -/
def decode_utf8 (bytes : List UInt8) : Option Text :=
  bytes.toByteArray.utf8Decode?.map Array.toList

theorem decode_utf8_some {bytes : List UInt8} {s : Text} :
    decode_utf8 bytes = some s ↔ bytes = utf8 s := by
  constructor
  · intro h
    obtain ⟨chars, hchars, rfl⟩ := Option.map_eq_some_iff.mp h
    have hvalid : bytes.toByteArray.utf8Decode?.isSome = true := Option.isSome_of_eq_some hchars
    have hencode := ByteArray.utf8Encode_get_utf8Decode? (h := hvalid)
    rw [Option.get_of_eq_some hvalid hchars] at hencode
    exact (List.toByteArray_inj.mp hencode).symm
  · rintro rfl
    exact congrArg (Option.map Array.toList) (List.utf8Decode?_utf8Encode (l := s))

section Cipher

variable (cipher : AESGCM) (KEK : Text)

def kek : Option (List UInt8) :=
  if KEK = [] then none
  else
    match b64decode KEK with
    | none => none
    | some key => if key.length ≠ 32 then none else some key

/-- `nonce` is what `os.urandom` draws. -/
def encrypt (nonce : List UInt8) (plaintext : Text) (aad : List UInt8) : Option Text := do
  let key ← kek KEK
  let blob := cipher.encrypt key nonce (utf8 plaintext) aad
  return b64encode (nonce ++ blob)

def decrypt (b64_blob : Text) (aad : List UInt8) : Option Text := do
  let raw ← b64decode b64_blob
  let nonce := raw.take NONCE_LEN
  let blob := raw.drop NONCE_LEN
  let key ← kek KEK
  let plaintext ← cipher.decrypt key nonce blob aad
  decode_utf8 plaintext

variable {cipher KEK}

/-- What is decrypted is what has been encrypted under the key, behind a nonce. -/
theorem decrypt_some (hcipher : cipher.Lawful) {b64_blob plaintext : Text} {aad : List UInt8} :
    decrypt cipher KEK b64_blob aad = some plaintext ↔
      ∃ key nonce, kek KEK = some key ∧ nonce.length = NONCE_LEN ∧
        b64decode b64_blob = some (nonce ++ cipher.encrypt key nonce (utf8 plaintext) aad) := by
  constructor
  · intro h
    obtain ⟨raw, hraw, h⟩ := Option.bind_eq_some_iff.mp h
    obtain ⟨key, hkey, h⟩ := Option.bind_eq_some_iff.mp h
    obtain ⟨bytes, hbytes, h⟩ := Option.bind_eq_some_iff.mp h
    obtain rfl := decode_utf8_some.mp h
    have hblob := hcipher.authentic _ _ _ _ _ hbytes
    have htag := hcipher.tagged key (raw.take NONCE_LEN) (utf8 plaintext) aad
    rw [← hblob, List.length_drop] at htag
    refine ⟨key, raw.take NONCE_LEN, hkey, ?_, ?_⟩
    · rw [List.length_take]
      omega
    · rw [← hblob, List.take_append_drop]
      exact hraw
  · rintro ⟨key, nonce, hkey, hnonce, hraw⟩
    unfold decrypt
    rw [hraw, Option.bind_eq_bind, Option.bind_some, List.take_left' hnonce, List.drop_left' hnonce,
      hkey]
    dsimp only [Option.bind_eq_bind, Option.bind_some]
    rw [hcipher.opens key nonce _ aad hnonce, Option.bind_some]
    exact decode_utf8_some.mpr rfl

theorem decrypt_encrypt (hcipher : cipher.Lawful) {nonce : List UInt8} {plaintext blob : Text}
    {aad : List UInt8} (hnonce : nonce.length = NONCE_LEN)
    (h : encrypt cipher KEK nonce plaintext aad = some blob) :
    decrypt cipher KEK blob aad = some plaintext := by
  obtain ⟨key, hkey, h⟩ := Option.bind_eq_some_iff.mp h
  cases h
  exact (decrypt_some hcipher).mpr ⟨key, nonce, hkey, hnonce, b64decode_b64encode _⟩

end Cipher

section Stored

variable (cipher : AESGCM) (KEK : Text)

/-- The bytes of a nonce that is written as a text. -/
def drawn (nonce : Text) : List UInt8 := nonce.map fun c => UInt8.ofNat c.toNat

/-- The hub's own cipher; no nonce of another length is ever drawn. -/
def hub_crypto : Crypto where
  encrypt plaintext nonce :=
    if nonce.length = NONCE_LEN then encrypt cipher KEK (drawn nonce) plaintext [] else none
  decrypt b64_blob := decrypt cipher KEK b64_blob []

def ciphered (env : Env) : Env := { env with crypto := hub_crypto cipher KEK }

/-- What has been put last and not deleted since. -/
def last_put (values : Text → Text → Option Text) : Label → Text → Text → Option Text
  | .put_secret user_id key_name value _ => fun u k =>
      if u = user_id ∧ k = key_name then some value else values u k
  | .delete_secret user_id key_name => fun u k =>
      if u = user_id ∧ k = key_name then none else values u k
  | .wake .. => values

/-- The nonces that a request of a run draws. -/
def Drawn : Label → Prop
  | .put_secret _ _ _ nonce => nonce.length = NONCE_LEN
  | _ => True

variable {cipher KEK}

theorem hub_crypto_opens (hcipher : cipher.Lawful) : (hub_crypto cipher KEK).Opens := by
  intro plaintext nonce blob h
  obtain ⟨hnonce, h⟩ := Option.ite_none_right_eq_some.mp h
  exact decrypt_encrypt hcipher ((List.length_map _).trans hnonce) h

theorem written_drawn {env : Env} {key : List UInt8} (hkek : kek KEK = some key)
    (values : Text → Text → Option Text) {l : Label} (hl : Drawn l) :
    written (ciphered cipher KEK env) values l = last_put values l := by
  cases l with
  | put_secret user_id key_name value nonce =>
      have hsome : ((ciphered cipher KEK env).crypto.encrypt value nonce).isSome = true := by
        simp only [ciphered, hub_crypto, if_pos (show nonce.length = NONCE_LEN from hl), encrypt,
          hkek]
        rfl
      simp only [written, last_put, hsome, true_and]
  | delete_secret user_id key_name => rfl
  | wake => rfl

theorem foldl_written {env : Env} {key : List UInt8} (hkek : kek KEK = some key) {es : List Label}
    (hes : ∀ l ∈ es, Drawn l) (values : Text → Text → Option Text) :
    es.foldl (written (ciphered cipher KEK env)) values = es.foldl last_put values := by
  induction es generalizing values with
  | nil => rfl
  | cons l es ih =>
      obtain ⟨hl, hes⟩ := List.forall_mem_cons.mp hes
      rw [List.foldl_cons, List.foldl_cons, written_drawn hkek values hl, ih hes]

/-- Every row can be opened. -/
def Openable (env : Env) (rows : List UserSecret) : Prop :=
  ∀ row ∈ rows, ∃ value, env.crypto.decrypt row.encrypted_value = some value

theorem openable_put {env : Env} (hcrypto : env.crypto.Opens) {rows : List UserSecret}
    (h : Openable env rows) (user_id key_name value nonce : Text) :
    Openable env ((put_secret env rows user_id key_name value nonce).getD rows) := by
  rw [put_secret]
  cases hblob : env.crypto.encrypt value nonce with
  | none => exact h
  | some ciphertext =>
      have hopen := hcrypto value nonce ciphertext hblob
      rw [Option.bind_some]
      split
      next =>
          intro row hrow
          rcases List.mem_append.mp hrow with hrow | hrow
          · exact h row hrow
          · obtain rfl := List.mem_singleton.mp hrow
            exact ⟨value, hopen⟩
      next =>
          intro row hrow
          obtain ⟨old, hold, rfl⟩ := List.mem_map.mp hrow
          unfold rewritten
          split_ifs
          · exact ⟨value, hopen⟩
          · exact h old hold
      next => exact h

theorem openable_foldl {env : Env} (hcrypto : env.crypto.Opens) (es : List Label) {s : State}
    (h : Openable env s.user_secrets) : Openable env (es.foldl (step env) s).user_secrets := by
  induction es generalizing s with
  | nil => exact h
  | cons l es ih =>
      rw [List.foldl_cons]
      apply ih
      cases l with
      | put_secret user_id key_name value nonce =>
          exact openable_put hcrypto h user_id key_name value nonce
      | delete_secret user_id key_name =>
          rw [step, delete_secret]
          split
          next => exact h
          next => exact fun row hrow => h row (List.mem_of_mem_filter hrow)
          next => exact h
      | wake => exact h

theorem secrets_of_mem {env : Env} {rows : List UserSecret} (hunique : Unique rows)
    {row : UserSecret} (hrow : row ∈ rows) :
    secrets env rows row.user_id row.key_name = env.crypto.decrypt row.encrypted_value := by
  have hnamed : row.named row.user_id row.key_name = true := named_iff.mpr ⟨rfl, rfl⟩
  obtain ⟨found, hfound⟩ := Option.isSome_iff_exists.mp
    (List.find?_isSome.mpr ⟨row, hrow, hnamed⟩)
  have hsame : found = row := by
    have hname := named_iff.mp (List.find?_some hfound)
    exact List.inj_on_of_nodup_map hunique (List.mem_of_find?_eq_some hfound) hrow
      (Prod.ext hname.1 hname.2)
  rw [secrets, hfound, hsame, Option.bind_some]

end Stored

/-- The data under a key stream. -/
def masked (stream : ℕ → UInt8) (data : List UInt8) : List UInt8 :=
  data.mapIdx fun i b => b ^^^ stream i

theorem masked_masked (stream : ℕ → UInt8) (data : List UInt8) :
    masked stream (masked stream data) = data := by
  apply List.ext_getElem
  · rw [masked, masked, List.length_mapIdx, List.length_mapIdx]
  · intro i _ _
    simp only [masked, List.getElem_mapIdx]
    rw [UInt8.xor_assoc, UInt8.xor_self, UInt8.xor_zero]

/-- Galois/counter mode over the key stream of a nonce and the tag of what it hides. -/
def gcm (stream : List UInt8 → List UInt8 → ℕ → UInt8)
    (tag : List UInt8 → List UInt8 → List UInt8 → List UInt8 → List UInt8) : AESGCM where
  encrypt key nonce data aad :=
    let hidden := masked (stream key nonce) data
    hidden ++ tag key nonce hidden aad
  decrypt key nonce blob aad :=
    let hidden := blob.take (blob.length - 16)
    if blob = hidden ++ tag key nonce hidden aad then some (masked (stream key nonce) hidden)
    else none

theorem gcm_lawful (stream : List UInt8 → List UInt8 → ℕ → UInt8)
    {tag : List UInt8 → List UInt8 → List UInt8 → List UInt8 → List UInt8}
    (htag : ∀ key nonce hidden aad, (tag key nonce hidden aad).length = 16) :
    (gcm stream tag).Lawful where
  tagged := by
    intro key nonce data aad
    simp only [gcm, masked]
    rw [List.length_append, htag, List.length_mapIdx]
  opens := by
    intro key nonce data aad _
    have hhidden (hidden : List UInt8) :
        (hidden ++ tag key nonce hidden aad).take
          ((hidden ++ tag key nonce hidden aad).length - 16) = hidden := by
      rw [List.length_append, htag, Nat.add_sub_cancel, List.take_left]
    simp only [gcm]
    rw [hhidden, if_pos rfl, masked_masked]
  authentic := by
    intro key nonce blob aad data h
    obtain ⟨hblob, h⟩ := Option.ite_none_right_eq_some.mp h
    cases h
    simp only [gcm]
    rw [masked_masked]
    exact hblob

/-- The key stream and the tags of the key of zeros, as far as they are used below. -/
def zero_stream (_ nonce : List UInt8) (i : ℕ) : UInt8 :=
  if nonce = List.replicate 12 110 then [170, 207, 205].getD i 0
  else if nonce = List.replicate 12 109 then [236, 34, 25].getD i 0
  else 0

def zero_tag (_ nonce hidden _ : List UInt8) : List UInt8 :=
  if nonce = List.replicate 12 110 ∧ hidden = [197, 163, 169] then
    [126, 132, 98, 83, 158, 16, 210, 210, 45, 155, 216, 173, 96, 253, 140, 100]
  else if nonce = List.replicate 12 109 ∧ hidden = [130, 71, 110] then
    [167, 91, 231, 125, 97, 10, 153, 37, 200, 251, 237, 182, 190, 238, 111, 233]
  else List.replicate 16 0

def sealing : AESGCM := gcm zero_stream zero_tag

theorem sealing_lawful : sealing.Lawful := by
  apply gcm_lawful
  intro key nonce hidden aad
  unfold zero_tag
  split_ifs <;> rfl

/-- Thirty-two bytes of zero. -/
def zero_key : Text := b64encode (List.replicate 32 0)

theorem kek_zero_key : kek zero_key = some (List.replicate 32 0) := by
  rw [zero_key, kek, if_neg (by simp [List.replicate, b64encode]), b64decode_b64encode]
  rfl

def rewritings : List Label :=
  [.put_secret "u".toList "k".toList "old".toList (List.replicate 12 'n'),
    .put_secret "u".toList "k".toList "new".toList (List.replicate 12 'm')]

end ArticTrader.SecretCipher
