import Porthop.Agent.Messages

/- Each message is within the limit of the end that reads it.

   The sizes are bounded from the parts, and every kind of message is read as it was
   written: `sent_accepted` takes the senders one by one. -/
namespace Porthop.Agent
open MessagePack (compact)
open Git.Wire (writeText readText readTuple)

/-! ## Scalars -/

theorem reads_u8 (n : UInt8) : readU8.Reads (compact.write (u8 n)) n := by
  have hn := n.toNat_lt
  refine (Git.Wire.reads_integer (by omega) (by omega)).map ?_
  show some (UInt8.ofNat ((n.toNat : Nat) : Int).toNat, ([] : List UInt8)) = _
  rw [Int.toNat_natCast, UInt8.ofNat_toNat]

theorem reads_i64 (i : Int64) : readI64.Reads (compact.write (i64 i)) i := by
  have hlow := i.le_toInt
  have hhigh := i.toInt_lt
  have hproper := Git.Wire.intToken_proper hlow hhigh
  have hint : (Git.Wire.readInteger compact (-2 ^ 63) (2 ^ 63)).Reads (compact.write (i64 i))
      i.toInt := by
    refine (compact.reads _ hproper).map ?_
    rw [Git.Wire.ofInteger_intToken hlow hhigh hlow hhigh]
    rfl
  refine hint.map ?_
  show some (Int64.ofInt i.toInt, ([] : List UInt8)) = _
  rw [Int64.ofInt_toInt]

theorem reads_str {s : String} (h : s.utf8ByteSize < 2 ^ 32) :
    (readText compact).Reads (writeText compact s) s :=
  (compact.reads (.str s) h).map rfl

theorem reads_bin {bs : Bytes} (h : bs.length < 2 ^ 32) :
    (Git.Wire.readByteBuf compact).Reads (compact.write (.bin bs)) bs :=
  (compact.reads (.bin bs) h).map rfl

theorem reads_optional {s : Option String} (h : ∀ t, s = some t → t.utf8ByteSize < 2 ^ 32) :
    readOptional.Reads (compact.write (optional s)) s := by
  cases s with
  | none => exact (compact.reads .nil trivial).map rfl
  | some t => exact (compact.reads (.str t) (h t rfl)).map rfl

theorem reads_texts {ss : List String} (hcount : ss.length < 2 ^ 32)
    (h : ∀ s ∈ ss, s.utf8ByteSize < 2 ^ 32) : readTexts.Reads (writeTexts ss) ss := by
  have hitems : ∀ (ss : List String) i, (∀ s ∈ ss, s.utf8ByteSize < 2 ^ 32) →
      (Parser.items (fun _ => readText compact) i ss.length).Reads
        ((ss.map (writeText compact)).flatten) ss := by
    intro ss
    induction ss with
    | nil => exact fun i _ => rfl
    | cons s ss ih =>
      intro i h
      have hrest := ih (i + 1) fun t ht => h t (List.mem_cons_of_mem _ ht)
      exact (reads_str (h s List.mem_cons_self)).bind (hrest.map rfl)
  refine (compact.reads (.arr (UInt32.ofNat ss.length)) trivial).bind ?_
  show (Parser.items (fun _ => readText compact) 0 (UInt32.ofNat ss.length).toNat).Reads _ _
  rw [Git.Wire.header_toNat hcount]
  exact hitems ss 0 h

theorem length_i64_le (i : Int64) : (compact.write (i64 i)).length ≤ 9 := by
  unfold i64 Git.Wire.intToken
  split
  · exact MessagePack.length_writeUInt_le _
  · exact MessagePack.length_writeSInt_le _

theorem length_u64_le (n : UInt64) : (compact.write (.uint n)).length ≤ 9 :=
  MessagePack.length_writeUInt_le _

theorem length_u8_le (n : UInt8) : (compact.write (u8 n)).length ≤ 2 := by
  have hn := n.toNat_lt
  apply MessagePack.length_writeUInt_byte
  rw [UInt64.toNat_ofNat', Nat.mod_eq_of_lt (by omega)]
  exact hn

theorem length_arr_le {n : Nat} (h : n < 65536) :
    (compact.write (.arr (UInt32.ofNat n))).length ≤ 3 := by
  apply MessagePack.length_write_arr
  rw [Git.Wire.header_toNat (by omega)]
  exact h

theorem length_text_le {s : String} (h : s.utf8ByteSize < 65536) :
    (writeText compact s).length ≤ s.utf8ByteSize + 3 := MessagePack.length_write_str h

/-! ## Messages -/

section
variable {α : Type} {reader : Parser UInt8 α} {limit : Nat} {bytes : Bytes} {a : α}

theorem deserialize_reads (h : reader.Reads bytes a) (hle : bytes.length ≤ limit) :
    deserialize reader limit bytes = some a := by
  rw [deserialize, if_neg (Nat.not_lt.mpr hle)]
  exact h.whole

/-- Nothing may follow a message. -/
theorem deserialize_trailing (h : reader.Reads bytes a) {extra : Bytes} (hextra : extra ≠ []) :
    deserialize reader limit (bytes ++ extra) = none := by
  unfold deserialize
  split
  · rfl
  · exact h.whole_trailing hextra

/-- No part of a message is one. -/
theorem deserialize_prefix {part more : Bytes} (h : reader.Reads (part ++ more) a)
    (hmore : more ≠ []) : deserialize reader limit part = none := by
  unfold deserialize
  split
  · rfl
  · exact h.whole_prefix hmore

end

/-- The offers that are accepted. -/
def Offer.Valid (o : Offer) : Prop :=
  o.formats.length ≤ 256 ∧ (∀ s ∈ o.formats, validFormat s = true) ∧ o.formats.Nodup

theorem valid_size {s : String} (h : validFormat s = true) : s.utf8ByteSize ≤ 256 := by
  simp only [validFormat, Bool.and_eq_true, decide_eq_true_eq] at h
  exact h.1.1.2

theorem Offer.valid_of_decode {o : Offer} {bytes : Bytes} (h : Offer.decode bytes = some o) :
    o.Valid := by
  obtain ⟨-, hvalid⟩ := Option.filter_eq_some_iff.mp h
  simp only [Bool.and_eq_true, decide_eq_true_eq, List.all_eq_true] at hvalid
  exact ⟨hvalid.1.1, hvalid.1.2, hvalid.2⟩

theorem reads_offer {o : Offer} (h : o.Valid) : readOffer.Reads o.encode o := by
  obtain ⟨hcount, hvalid, -⟩ := h
  have htexts : readTexts.Reads (writeTexts o.formats) o.formats := by
    apply reads_texts (by omega)
    intro s hs
    have := valid_size (hvalid s hs)
    omega
  exact Git.Wire.reads_tuple (by decide) ((reads_i64 o.revision).bind (htexts.map rfl))

theorem length_texts_le {ss : List String} (h : ∀ s ∈ ss, validFormat s = true) :
    ((ss.map (writeText compact)).flatten).length ≤ ss.length * 259 := by
  induction ss with
  | nil => exact Nat.zero_le _
  | cons s ss ih =>
    have hsize := valid_size (h s List.mem_cons_self)
    have hlen := @length_text_le s (by omega)
    have hrest := ih fun t ht => h t (List.mem_cons_of_mem _ ht)
    simp only [List.map_cons, List.flatten_cons, List.length_append, List.length_cons]
    omega

theorem Offer.length_encode {o : Offer} (h : o.Valid) : o.encode.length ≤ 67000 := by
  have htexts := length_texts_le h.2.1
  have hcount := h.1
  have hitems := @length_arr_le o.formats.length (by omega)
  have hpair := @length_arr_le 2 (by decide)
  have hrev := length_i64_le o.revision
  have hprod : o.formats.length * 259 ≤ 256 * 259 := Nat.mul_le_mul_right _ hcount
  unfold Offer.encode writeTexts
  simp only [List.length_append]
  calc _ ≤ 3 + (9 + (3 + 256 * 259)) := by
        apply Nat.add_le_add hpair
        apply Nat.add_le_add hrev
        exact Nat.add_le_add hitems (Nat.le_trans htexts hprod)
    _ ≤ 67000 := by decide

theorem Offer.decode_encode {o : Offer} (h : o.Valid) : Offer.decode o.encode = some o := by
  have hread := deserialize_reads (reads_offer h) (Offer.length_encode h)
  unfold Offer.decode
  rw [hread]
  simp [h.1, h.2.2]
  exact h.2.1

theorem reads_request {r : Request} (h : r.format.utf8ByteSize < 2 ^ 32) :
    readRequest.Reads r.encode r :=
  Git.Wire.reads_tuple (by decide) ((Git.Wire.reads_u64 r.id).bind
    ((reads_i64 r.revision).bind ((reads_str h).map rfl)))

theorem Request.length_encode {r : Request} (h : validFormat r.format = true) :
    r.encode.length ≤ 280 := by
  have hsize := valid_size h
  have hformat := @length_text_le r.format (by omega)
  have hitems := @length_arr_le 3 (by decide)
  have hid := length_u64_le r.id
  have hrev := length_i64_le r.revision
  unfold Request.encode
  simp only [List.length_append]
  calc _ ≤ 3 + (9 + (9 + (256 + 3))) := by
        apply Nat.add_le_add hitems
        apply Nat.add_le_add hid
        apply Nat.add_le_add hrev
        omega
    _ ≤ 280 := by decide

theorem Request.decode_encode {r : Request} (h : validFormat r.format = true) :
    Request.decode r.encode = some r := by
  have hsize := valid_size h
  have hle : r.encode.length ≤ 512 := Nat.le_trans (Request.length_encode h) (by decide)
  unfold Request.decode
  rw [deserialize_reads (reads_request (by omega)) hle]
  exact Option.filter_some_pos h

/-- A request for what is not the name of a format is refused. -/
theorem Request.decode_invalid {r : Request} (h : validFormat r.format = false)
    (hsize : r.format.utf8ByteSize < 2 ^ 32) : Request.decode r.encode = none := by
  unfold Request.decode deserialize
  split
  · rfl
  · rw [(reads_request hsize).whole]
    exact Option.filter_some_neg (by simp [h])

theorem reads_reply {r : Reply} (h : r.bytes.length ≤ chunk) : readReply.Reads r.encode r := by
  have hlen : r.bytes.length < 2 ^ 32 := Nat.lt_of_le_of_lt h (by decide)
  exact Git.Wire.reads_tuple (by decide) ((Git.Wire.reads_u64 r.id).bind
    ((reads_i64 r.revision).bind ((reads_u8 r.status).bind ((Git.Wire.reads_bool r.done).bind
      ((reads_bin hlen).map rfl)))))

theorem Reply.length_encode {r : Reply} (h : r.bytes.length ≤ chunk) :
    r.encode.length ≤ chunk + 32 := by
  have hitems := @length_arr_le 5 (by decide)
  have hid := length_u64_le r.id
  have hrev := length_i64_le r.revision
  have hstatus := length_u8_le r.status
  have hdone : (compact.write (.bool r.done)).length = 1 := MessagePack.length_write_bool _
  have hbytes : (compact.write (.bin r.bytes)).length ≤ r.bytes.length + 5 :=
    MessagePack.length_write_bin _
  unfold Reply.encode
  simp only [List.length_append]
  calc _ ≤ 3 + (9 + (9 + (2 + (1 + (chunk + 5))))) := by
        apply Nat.add_le_add hitems
        apply Nat.add_le_add hid
        apply Nat.add_le_add hrev
        apply Nat.add_le_add hstatus
        omega
    _ ≤ chunk + 32 := by decide

theorem parseReply_encode {r : Reply} (hstatus : r.status.toNat ≤ 2)
    (h : r.bytes.length ≤ chunk) : parseReply r.encode = some r := by
  unfold parseReply
  rw [deserialize_reads (reads_reply h) (Reply.length_encode h)]
  exact Option.filter_some_pos (by simp [hstatus, h])

theorem reads_browserRequest {r : BrowserRequest} (h : r.url.utf8ByteSize ≤ 8192) :
    readBrowserRequest.Reads r.encode r :=
  Git.Wire.reads_tuple (by decide) ((Git.Wire.reads_u64 r.id).bind
    ((reads_str (by omega)).map rfl))

theorem BrowserRequest.length_encode {r : BrowserRequest} (h : r.url.utf8ByteSize ≤ 8192) :
    r.encode.length ≤ 8224 := by
  have hitems := @length_arr_le 2 (by decide)
  have hid := length_u64_le r.id
  have hurl := @length_text_le r.url (by omega)
  unfold BrowserRequest.encode
  simp only [List.length_append]
  calc _ ≤ 3 + (9 + (8192 + 3)) := by
        apply Nat.add_le_add hitems
        apply Nat.add_le_add hid
        omega
    _ ≤ 8224 := by decide

theorem url_size {parses : String → Bool} {url : String} (h : webUrl parses url = true) :
    url.utf8ByteSize ≤ 8192 := by
  simp only [webUrl, Bool.and_eq_true, decide_eq_true_eq] at h
  exact h.1.1

theorem parseBrowserRequest_encode {parses : String → Bool} {r : BrowserRequest}
    (h : webUrl parses r.url = true) : parseBrowserRequest parses r.encode = some r := by
  have hsize := url_size h
  unfold parseBrowserRequest
  rw [deserialize_reads (reads_browserRequest hsize) (BrowserRequest.length_encode hsize)]
  exact Option.filter_some_pos h

/-- The texts of a reply are short. -/
def BrowserReply.Short (r : BrowserReply) : Prop :=
  ∀ t, r.message = some t → t.utf8ByteSize ≤ 8192

theorem reads_browserReply {r : BrowserReply} (h : r.Short) :
    readBrowserReply.Reads r.encode r := by
  have hmessage := @reads_optional r.message fun t ht => by
    have := h t ht
    omega
  exact Git.Wire.reads_tuple (by decide) ((Git.Wire.reads_u64 r.id).bind
    ((Git.Wire.reads_bool r.success).bind (hmessage.map rfl)))

theorem BrowserReply.length_encode {r : BrowserReply} (h : r.Short) :
    r.encode.length ≤ 8224 := by
  have hitems := @length_arr_le 3 (by decide)
  have hid := length_u64_le r.id
  have hsuccess : (compact.write (.bool r.success)).length = 1 := MessagePack.length_write_bool _
  have hmessage : (compact.write (optional r.message)).length ≤ 8192 + 3 := by
    cases hm : r.message with
    | none => exact Nat.le_trans (Nat.le_refl 1) (by decide)
    | some t =>
      have hsize := h t hm
      have := @length_text_le t (by omega)
      exact Nat.le_trans this (by omega)
  unfold BrowserReply.encode
  simp only [List.length_append]
  calc _ ≤ 3 + (9 + (1 + (8192 + 3))) := by
        apply Nat.add_le_add hitems
        apply Nat.add_le_add hid
        omega
    _ ≤ 8224 := by decide

theorem parseBrowserReply_encode {r : BrowserReply} (h : r.Short) :
    parseBrowserReply r.encode = some r :=
  deserialize_reads (reads_browserReply h) (BrowserReply.length_encode h)

/-! ## The texts of the desktop -/

theorem utf8Len_le (cs : List Char) : String.utf8Len cs ≤ 4 * cs.length := by
  induction cs with
  | nil => exact Nat.zero_le _
  | cons c cs ih =>
    have hc := c.utf8Size_le_four
    rw [String.utf8Len_cons, List.length_cons]
    omega

theorem digits_size {n k : Nat} (hk : 0 < k) (h : n < 10 ^ k) :
    (digits n).utf8ByteSize ≤ 4 * k := by
  have hlen : (Nat.toDigits 10 n).length ≤ k :=
    (Nat.length_toDigits_le_iff (by decide) hk).mpr h
  calc (digits n).utf8ByteSize = String.utf8Len (Nat.toDigits 10 n) := String.utf8ByteSize_ofList _
    _ ≤ 4 * (Nat.toDigits 10 n).length := utf8Len_le _
    _ ≤ 4 * k := Nat.mul_le_mul_left 4 hlen

theorem byte_size (n : UInt8) : (digits n.toNat).utf8ByteSize ≤ 12 :=
  @digits_size n.toNat 3 (by decide) (Nat.lt_trans n.toNat_lt (by decide))

theorem append_size {a b : String} {n k : Nat} (ha : a.utf8ByteSize ≤ n)
    (hb : b.utf8ByteSize ≤ k) : (a ++ b).utf8ByteSize ≤ n + k := by
  rw [String.utf8ByteSize_append]
  exact Nat.add_le_add ha hb

theorem Loopback.text_size (ip : Loopback) : ip.text.utf8ByteSize ≤ 42 := by
  cases ip with
  | v4 b c d =>
    have hnet : "127.".utf8ByteSize ≤ 4 := by decide +kernel
    have hdot : ".".utf8ByteSize ≤ 1 := by decide +kernel
    have hfirst := append_size (append_size hnet (byte_size b)) hdot
    exact append_size (append_size (append_size hfirst (byte_size c)) hdot) (byte_size d)
  | v6 => decide +kernel

theorem Reason.text_size (r : Reason) : r.text.utf8ByteSize ≤ 137 := by
  cases r with
  | listen ip number =>
    have hstart : "Cannot listen on ".utf8ByteSize ≤ 17 := by decide +kernel
    have hcolon : ":".utf8ByteSize ≤ 1 := by decide +kernel
    have hend : ". Close the app using that port or use device-code login.".utf8ByteSize ≤ 57 := by
      decide +kernel
    have hport : (digits number.toNat).utf8ByteSize ≤ 20 :=
      @digits_size number.toNat 5 (by decide) (Nat.lt_trans number.toNat_lt (by decide))
    have haddress := append_size (append_size hstart ip.text_size) hcolon
    exact append_size (append_size haddress hport) hend
  | multiple => decide +kernel
  | redirect => decide +kernel
  | scheme => decide +kernel
  | port => decide +kernel
  | pending => decide +kernel
  | address => decide +kernel

theorem Opened.short (id : UInt64) (o : Opened) : (o.reply id).Short := by
  intro t ht
  cases o with
  | opened => cases ht
  | warned reason =>
    obtain rfl := Option.some.inj ht
    have hstart : "Browser opened without callback forwarding. ".utf8ByteSize ≤ 44 := by
      decide +kernel
    exact Nat.le_trans (append_size hstart reason.text_size) (by decide)
  | disabled =>
    obtain rfl := Option.some.inj ht
    decide +kernel
  | invalid =>
    obtain rfl := Option.some.inj ht
    decide +kernel
  | failed =>
    obtain rfl := Option.some.inj ht
    decide +kernel

/-! ## The desktop's offers -/

theorem foldl_nodup {kinds formats : List String} (h : formats.Nodup) :
    (kinds.foldl (fun formats kind => if kind ∈ formats then formats else formats ++ [kind])
      formats).Nodup := by
  induction kinds generalizing formats with
  | nil => exact h
  | cons kind kinds ih =>
    apply ih
    show (if kind ∈ formats then formats else formats ++ [kind]).Nodup
    split
    · exact h
    · next hnew =>
      refine List.nodup_append.mpr ⟨h, List.nodup_singleton _, ?_⟩
      intro a ha b hb heq
      rw [List.mem_singleton.mp hb] at heq
      exact hnew (heq ▸ ha)

theorem winFormats_nodup (text image html files : Bool) :
    (winFormats text image html files).Nodup := by
  revert text image html files
  decide

theorem clipboardOffer_valid (revision : Int64) {formats : List String} (h : formats.Nodup) :
    (clipboardOffer revision formats).Valid := by
  refine ⟨List.length_take_le _ _, ?_, ?_⟩
  · intro s hs
    have hmem := (List.mem_filter.mp (List.mem_of_mem_take hs)).2
    simp only [Bool.and_eq_true] at hmem
    exact hmem.1
  · exact (h.filter _).sublist (List.take_sublist _ _)

/-! ## Every message -/

/-- A request is for what may be the name of a format. -/
def Message.Named : Message → Prop
  | .request r => validFormat r.format = true
  | _ => True

/-- The bytes are not read as a message of this kind. -/
def Message.Unread : Message → Bytes → Prop
  | .offer _, data => deserialize readOffer 67000 data = none
  | .request _, data => deserialize readRequest 512 data = none
  | .reply _, data => deserialize readReply (chunk + 32) data = none
  | .browserRequest _, data => deserialize readBrowserRequest 8224 data = none
  | .browserReply _, data => deserialize readBrowserReply 8224 data = none

section
variable {parses : String → Bool} {Z : Clipboard.Zlib} {r : Receiver} {m : Message}

theorem accept_unread {data : Bytes} (h : m.Unread data) :
    r.accept parses (m.kind, data) = none := by
  cases m with
  | offer o =>
    have h : deserialize readOffer 67000 data = none := h
    cases r <;> simp [Receiver.accept, Message.kind, Offer.decode, h]
  | request q =>
    have h : deserialize readRequest 512 data = none := h
    cases r <;> simp [Receiver.accept, Message.kind, Request.decode, h]
  | reply q =>
    have h : deserialize readReply (chunk + 32) data = none := h
    cases r <;> simp [Receiver.accept, Message.kind, parseReply, h]
  | browserRequest q =>
    have h : deserialize readBrowserRequest 8224 data = none := h
    cases r <;> simp [Receiver.accept, Message.kind, parseBrowserRequest, h]
  | browserReply q =>
    have h : deserialize readBrowserReply 8224 data = none := h
    cases r <;> simp [Receiver.accept, Message.kind, parseBrowserReply, h]

/-- The messages that are within every limit of their kind. -/
def Message.Fits (parses : String → Bool) : Message → Prop
  | .offer o => o.Valid
  | .request q => validFormat q.format = true
  | .reply q => q.status.toNat ≤ 2 ∧ q.bytes.length ≤ chunk
  | .browserRequest q => webUrl parses q.url = true
  | .browserReply q => q.Short

/-- A message that fits is itself, and neither a part of it nor more is a message. -/
theorem Message.Fits.exact (h : m.Fits parses) :
    (∀ extra, extra ≠ [] → m.Unread (m.encode ++ extra)) ∧
    ∀ part more, m.encode = part ++ more → more ≠ [] → m.Unread part := by
  cases m with
  | offer o =>
    have hread : readOffer.Reads (Message.offer o).encode o := reads_offer h
    exact ⟨fun extra he => deserialize_trailing hread he,
      fun _ _ heq hm => deserialize_prefix (heq ▸ hread) hm⟩
  | request q =>
    have hsize := valid_size h
    have hread : readRequest.Reads (Message.request q).encode q := reads_request (by omega)
    exact ⟨fun extra he => deserialize_trailing hread he,
      fun _ _ heq hm => deserialize_prefix (heq ▸ hread) hm⟩
  | reply q =>
    have hread : readReply.Reads (Message.reply q).encode q := reads_reply h.2
    exact ⟨fun extra he => deserialize_trailing hread he,
      fun _ _ heq hm => deserialize_prefix (heq ▸ hread) hm⟩
  | browserRequest q =>
    have hread : readBrowserRequest.Reads (Message.browserRequest q).encode q := reads_browserRequest (url_size h)
    exact ⟨fun extra he => deserialize_trailing hread he,
      fun _ _ heq hm => deserialize_prefix (heq ▸ hread) hm⟩
  | browserReply q =>
    have hread : readBrowserReply.Reads (Message.browserReply q).encode q := reads_browserReply h
    exact ⟨fun extra he => deserialize_trailing hread he,
      fun _ _ heq hm => deserialize_prefix (heq ▸ hread) hm⟩

/-- What is sent fits, and the end it is sent to accepts it within its limit. -/
theorem sent_accepted (h : Sent parses Z r m) (hnamed : m.Named) :
    m.Fits parses ∧ m.encode.length ≤ min r.limit maxFrame ∧
      r.accept parses (m.kind, m.encode) = some m := by
  have hoffer : ∀ {o : Offer}, o.Valid → o.encode.length ≤ maxFrame := fun hv =>
    Nat.le_trans (Offer.length_encode hv) (by decide)
  have hrequest : ∀ {q : Request} {n : Nat}, validFormat q.format = true → 280 ≤ n →
      q.encode.length ≤ n := fun hv hn => Nat.le_trans (Request.length_encode hv) hn
  have hlocal : ∀ {q : BrowserReply}, q.Short → q.id = 0 →
      Receiver.opener.accept parses (66, q.encode) = some (.browserReply q) := by
    intro q hq hid
    show Option.map Message.browserReply (Option.filter _ (parseBrowserReply q.encode)) = _
    rw [parseBrowserReply_encode hq, Option.filter_some_pos (by simp [hid])]
    rfl
  have hshort : ∀ {t : String}, t.utf8ByteSize ≤ 8192 →
      (⟨0, false, some t⟩ : BrowserReply).Short := fun ht u hu => Option.some.inj hu ▸ ht
  cases h with
  | macOffer revision types =>
    have hnodup : (macFormats types).Nodup := foldl_nodup List.nodup_nil
    have hv := clipboardOffer_valid revision hnodup
    exact ⟨hv, hoffer hv, congrArg (Option.map Message.offer) (Offer.decode_encode hv)⟩
  | winOffer revision text image html files =>
    have hv := clipboardOffer_valid revision (winFormats_nodup text image html files)
    exact ⟨hv, hoffer hv, congrArg (Option.map Message.offer) (Offer.decode_encode hv)⟩
  | storeOffer ho =>
    have hv := Offer.valid_of_decode ho
    exact ⟨hv, hoffer hv, congrArg (Option.map Message.offer) (Offer.decode_encode hv)⟩
  | noOffer revision =>
    have hv : (⟨revision, []⟩ : Offer).Valid := ⟨Nat.zero_le _, nofun, List.nodup_nil⟩
    exact ⟨hv, hoffer hv, congrArg (Option.map Message.offer) (Offer.decode_encode hv)⟩
  | storeRequest ho id hf =>
    exact ⟨hnamed, hrequest hnamed (by decide),
      congrArg (Option.map Message.request) (Request.decode_encode hnamed)⟩
  | localRequest revision target =>
    exact ⟨hnamed, hrequest hnamed (by decide),
      congrArg (Option.map Message.request) (Request.decode_encode hnamed)⟩
  | @chunk q bytes _ part c hc done =>
    have hfits : (UInt8.ofNat c.1).toNat ≤ 2 ∧ c.2.length ≤ Agent.chunk := by
      unfold Clipboard.compressChunk at hc
      split at hc
      · cases hc
      · next hlen =>
        have hlen : part.length ≤ Agent.chunk := Nat.not_lt.mp hlen
        split at hc
        · next hshorter =>
          obtain rfl := Option.some.inj hc
          refine ⟨?_, ?_⟩
          · show (UInt8.ofNat 2).toNat ≤ 2
            decide
          · show (Z.deflate part).length ≤ Agent.chunk
            omega
        · obtain rfl := Option.some.inj hc
          refine ⟨?_, hlen⟩
          show (UInt8.ofNat 0).toNat ≤ 2
          decide
    have hlen := @Reply.length_encode ⟨q.id, q.revision, UInt8.ofNat c.1, done, c.2⟩ hfits.2
    exact ⟨hfits, Nat.le_trans hlen (by decide),
      congrArg (Option.map Message.reply) (parseReply_encode hfits.1 hfits.2)⟩
  | @failure q bytes hq =>
    have hfits : (1 : UInt8).toNat ≤ 2 ∧ ([] : Bytes).length ≤ chunk := by decide
    have hlen := @Reply.length_encode ⟨q.id, q.revision, 1, true, []⟩ hfits.2
    exact ⟨hfits, Nat.le_trans hlen (by decide),
      congrArg (Option.map Message.reply) (parseReply_encode hfits.1 hfits.2)⟩
  | @openUrl url hurl =>
    have hback : parseBrowserRequest parses (BrowserRequest.encode ⟨0, url⟩) = some ⟨0, url⟩ :=
      parseBrowserRequest_encode hurl
    refine ⟨hurl, BrowserRequest.length_encode (url_size hurl), ?_⟩
    show Option.map Message.browserRequest (Option.filter _ (parseBrowserRequest parses
      (BrowserRequest.encode ⟨0, url⟩))) = _
    rw [hback]
    rfl
  | @forwardUrl url bytes hparsed id =>
    have hurl : webUrl parses url = true := (Option.filter_eq_some_iff.mp hparsed).2
    exact ⟨hurl, BrowserRequest.length_encode (url_size hurl),
      congrArg (Option.map Message.browserRequest) (parseBrowserRequest_encode hurl)⟩
  | opened id o =>
    have hfits := o.short id
    exact ⟨hfits, Nat.le_trans (BrowserReply.length_encode hfits) (by decide),
      congrArg (Option.map Message.browserReply) (parseBrowserReply_encode hfits)⟩
  | openedLocal o =>
    have hfits := o.short 0
    have hid : (o.reply 0).id = 0 := by cases o <;> rfl
    exact ⟨hfits, BrowserReply.length_encode hfits, hlocal hfits hid⟩
  | timedOut =>
    have hfits := @hshort "Mac browser setup timed out; try again" (by decide +kernel)
    exact ⟨hfits, BrowserReply.length_encode hfits, hlocal hfits rfl⟩
  | rejected =>
    have hfits := @hshort
      "browser request rejected or another request is pending; try again" (by decide +kernel)
    exact ⟨hfits, BrowserReply.length_encode hfits, hlocal hfits rfl⟩

end

end Porthop.Agent
