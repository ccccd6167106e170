import Porthop.Git.Blob

/- Any number of blob pages, put together. -/
namespace Porthop.Git.Response

open MessagePack (utf8)
open Tokens (CursorRef)

variable {r : Repository} {o : Object}

/-! ## A page of the agent -/

/-- A part of the content. -/
def Object.slice (o : Object) (position stop : Nat) : List UInt8 :=
  (o.content.drop position).take (stop - position)

theorem Object.length_slice {position stop : Nat} (h : stop ≤ o.size) :
    (o.slice position stop).length = stop - position := by
  have hsize : o.size = o.content.length := rfl
  rw [Object.slice, List.length_take, List.length_drop]
  omega

theorem Object.take_slice {position stop : Nat} (h : position ≤ stop) :
    o.content.take position ++ o.slice position stop = o.content.take stop := by
  rw [Object.slice, ← List.take_add, Nat.add_sub_cancel' h]

theorem le_blobStop {budget position size : Nat} (h : position ≤ size) (hmax : size ≤ Cli.usizeMax) :
    position ≤ Cli.blobStop budget position size := by
  unfold Cli.blobStop Cli.saturatingAdd
  omega

/-- A page goes on by 768 bytes at least, if there are as many. -/
theorem progress_blobStop {budget position size : Nat} (hmax : size ≤ Cli.usizeMax) :
    min (position + 768) size ≤ Cli.blobStop budget position size := by
  have hbytes : 768 ≤ max (budget - 4096) 1024 * 3 / 4 := by omega
  rw [Cli.blobStop, Cli.saturatingAdd]
  generalize max (budget - 4096) 1024 * 3 / 4 = n at hbytes ⊢
  omega

/-- A page of an admitted budget takes no more than the desktop does. -/
theorem blobStop_le {budget position size : Nat} (h : budget ≤ 524288) :
    Cli.blobStop budget position size ≤ position + 390144 := by
  unfold Cli.blobStop Cli.saturatingAdd
  omega

/-- What the agent answers at a position. -/
theorem blob_at {t : Turn} {cursor : Option String} {position : Nat} (ht : t.Serves o)
    (hsize : o.size ≤ Cli.usizeMax) (hle : position ≤ o.size)
    (hcursor : Cli.blobOffset (Cli.blobSnapshot r.ref o.id) cursor = .ok position) :
    Cli.blob r.ref o.id t.budget cursor true t.git =
      .ok (Cli.blobPage (Cli.blobSnapshot r.ref o.id) (oidValue o.format o.id) o.size position
        (Cli.blobStop (t.budget.getD 65536) position o.size)
        (o.slice position (Cli.blobStop (t.budget.getD 65536) position o.size))) := by
  obtain ⟨reads, hcontent, hreads, hflat⟩ := ht.content
  have hstop := @le_blobStop (t.budget.getD 65536) position o.size hle hsize
  have hend : Cli.blobStop (t.budget.getD 65536) position o.size ≤ o.size := Nat.min_le_right _ _
  have hbudget : ¬ ¬ (4096 ≤ t.budget.getD (64 * 1024) ∧ t.budget.getD (64 * 1024) ≤ 524288) :=
    not_not_intro ⟨ht.least, ht.most⟩
  have hlen := @Object.length_slice o position _ hend
  have hwindow : Cli.window t.git position
      (Cli.blobStop (t.budget.getD 65536) position o.size - position) =
      .ok (o.slice position (Cli.blobStop (t.budget.getD 65536) position o.size)) := by
    rw [Cli.window, hcontent]
    simp only [bind, Except.bind, if_true]
    rw [Cli.drainWindow_eq hreads (by omega), hflat, Object.slice]
  rw [Cli.blob, oid_hexText o.hex, ht.header]
  simp only [bind, Except.bind, Except.mapError, Cli.blobSize_headerOf o.blank_id hsize,
    Bool.not_true, Bool.false_eq_true, false_and, if_false, if_true, if_neg hbudget, hcursor,
    gt_iff_lt, if_neg (Nat.not_lt.mpr hle), hwindow, hlen, ne_eq, not_true_eq_false]

/-! ## A page of the desktop -/

theorem Object.toLower_id : o.id.toLower = o.id := by
  have hlower : ∀ c : Char, lowerHex c → c.toLower = c := by
    intro c hc
    have hval := lowerHex_val hc
    have hupper : ¬ (c.val ≥ 'A'.val ∧ c.val ≤ 'Z'.val) := by
      rintro ⟨hlow, hhigh⟩
      have hA : 'A'.val.toNat = 65 := rfl
      have hZ : 'Z'.val.toNat = 90 := rfl
      have h₁ := UInt32.le_iff_toNat_le.mp hlow
      have h₂ := UInt32.le_iff_toNat_le.mp hhigh
      omega
    exact dif_neg hupper
  have hlist : o.id.toLower.toList = o.id.toList := by
    calc o.id.toLower.toList = o.id.toList.map Char.toLower := String.toList_map
      _ = o.id.toList.map (fun c => c) :=
          List.map_congr_left fun c hc => hlower c (Object.mem_id hc)
      _ = o.id.toList := List.map_id' _
  exact String.toList_injective hlist

theorem toNat_standard : ∀ c ∈ '=' :: Base64.standard.alphabet.chars, c.toNat < 0x10000 := by
  have hall : ('=' :: Base64.standard.alphabet.chars).all (fun c => c.toNat < 0x10000) = true := by
    decide +kernel
  intro c hc
  simpa using List.all_eq_true.mp hall c hc

theorem units_base64 (bs : List UInt8) :
    units (String.ofList (Base64.standard.encode bs)) = 4 * ((bs.length + 2) / 3) := by
  have hone : ∀ c ∈ Base64.standard.encode bs, (if c.toNat < 0x10000 then 1 else 2) = 1 := by
    intro c hc
    rw [if_pos]
    apply toNat_standard
    rcases Base64.standard.mem_encode hc with hmem | rfl
    · exact List.mem_cons_of_mem _ hmem
    · exact List.mem_cons_self
  have hlen := Base64.standard.length_encode bs
  rw [if_pos (show Base64.standard.padded = true from rfl)] at hlen
  rw [units, String.toList_ofList, List.map_congr_left hone, List.map_const', hlen,
    List.sum_replicate_nat, Nat.mul_one]

/-- The chunk of some bytes. -/
def chunk (position : Nat) (data : List UInt8) : BlobChunk :=
  ⟨position, String.ofList (Base64.standard.encode data), data.length⟩

theorem blobChunk_ok {position : Nat} {data : List UInt8} (hne : data ≠ [])
    (hlen : data.length ≤ 390144) (hposition : (position : Int) ≤ maxSafe) :
    blobChunk (some (.obj [("offset", .num position), ("bytesB64", Cli.base64 data)])) =
      .ok (chunk position data) := by
  have hoffset : prop [("offset", .num (position : Int)), ("bytesB64", Cli.base64 data)] "offset" =
      some (.num position) := rfl
  have hb64 : prop [("offset", .num (position : Int)), ("bytesB64", Cli.base64 data)] "bytesB64" =
      some (.str (String.ofList (Base64.standard.encode data))) := rfl
  have hunits : ¬ 524288 < units (String.ofList (Base64.standard.encode data)) := by
    rw [units_base64]
    omega
  have hbytes := @decodeGitBytes_ok [("bytesB64", .str (String.ofList
    (Base64.standard.encode data))), ("display", .str "")] data "" rfl rfl
  have hpos : ¬ data.length = 0 := fun h => hne (List.length_eq_zero_iff.mp h)
  simp only [blobChunk, object_obj, hb64, hoffset, text_str, bind, Except.bind, if_neg hunits,
    hbytes, String.toList_ofList, (canonical_encode data).2, if_neg hpos, count_safe hposition,
    chunk]

/-- The page from a position to another. -/
def Object.page (r : Repository) (o : Object) (position stop : Nat) : GitBlobPage where
  snapshot := (Cli.blobSnapshot r.ref o.id).encode
  entries := if stop = position then [] else [chunk position (o.slice position stop)]
  nextCursor := if stop < o.size then some (o.cursor r stop).encode else none
  metadata := ⟨⟨o.format, o.id⟩, o.size⟩

/-- A page as the agent makes it: not past the end, short enough, and empty only if the blob
    is. -/
structure Object.Cut (o : Object) (position stop : Nat) : Prop where
  le : position ≤ stop
  within : stop ≤ o.size
  short : stop ≤ position + 390144
  progress : position = stop → o.size = 0

theorem Object.page_entries {position stop : Nat} (h : o.Cut position stop)
    (hposition : (position : Int) ≤ maxSafe) :
    array blobChunk maxEntries (some (.arr (if stop = position then []
      else [.obj [("offset", .num position),
        ("bytesB64", Cli.base64 (o.slice position stop))]]))) =
      .ok (o.page r position stop).entries := by
  have hlength := @Object.length_slice o position stop h.within
  have hle := h.le
  have hwithin := h.within
  have hshort := h.short
  by_cases heq : stop = position
  · rw [Object.page, if_pos heq, if_pos heq]
    rfl
  · have hne : o.slice position stop ≠ [] := fun hnil => by
      rw [hnil, List.length_nil] at hlength
      omega
    have hchunk : ∀ p ∈ [position], blobChunk (some (.obj [("offset", .num (p : Int)),
        ("bytesB64", Cli.base64 (o.slice position stop))])) =
        .ok (chunk p (o.slice position stop)) := by
      intro p hp
      obtain rfl := List.mem_singleton.mp hp
      exact blobChunk_ok hne (by omega) hposition
    have harray := @array_ok Nat BlobChunk blobChunk _ _ maxEntries [position]
      (show 1 ≤ 200 by decide) hchunk
    rw [Object.page, if_neg heq, if_neg heq]
    exact harray

theorem Object.chunksEnd_page {position stop : Nat} (h : o.Cut position stop) :
    chunksEnd (o.page r position stop).entries = stop := by
  have hle := h.le
  by_cases heq : stop = position
  · have hzero := h.progress heq.symm
    have hwithin := h.within
    rw [Object.page, if_pos heq]
    show 0 = stop
    omega
  · rw [Object.page, if_neg heq]
    show position + (o.slice position stop).length = stop
    rw [Object.length_slice h.within]
    omega

theorem Object.page_nextCursor (position stop : Nat) :
    nullable text (some (if stop < o.size then .str (o.cursor r stop).encode else .null)) =
      .ok (o.page r position stop).nextCursor := by
  rw [Object.page]
  by_cases hlt : stop < o.size
  · rw [if_pos hlt, if_pos hlt]
    rfl
  · rw [if_neg hlt, if_neg hlt]
    rfl

/-- The desktop takes a page as what it is. -/
theorem decode_blobPage {position stop : Nat} (h : o.Cut position stop)
    (hsafe : (o.size : Int) ≤ maxSafe) :
    decodeGitBlobPage (some (Cli.blobPage (Cli.blobSnapshot r.ref o.id)
      (oidValue o.format o.id) o.size position stop (o.slice position stop))) =
      .ok (o.page r position stop) := by
  have hle := h.le
  have hwithin := h.within
  have hentries := @Object.page_entries r o position stop h (by omega)
  have hstop := @Object.chunksEnd_page r o position stop h
  have hnext := @Object.page_nextCursor r o position stop
  have hmetadata : blobMetadata (some (.obj [("oid", oidValue o.format o.id),
      ("size", .num o.size)])) = .ok (o.page r position stop).metadata := by
    have hoid : prop [("oid", oidValue o.format o.id), ("size", .num (o.size : Int))] "oid" =
        some (oidValue o.format o.id) := rfl
    have hsize : prop [("oid", oidValue o.format o.id), ("size", .num (o.size : Int))] "size" =
        some (.num o.size) := rfl
    simp only [blobMetadata, object_obj, hoid, hsize, decodeGitOid_oidValue o.hex,
      count_safe hsafe, bind, Except.bind]
    rfl
  have hpage : page (some (Cli.blobPage (Cli.blobSnapshot r.ref o.id)
      (oidValue o.format o.id) o.size position stop (o.slice position stop))) blobChunk
      blobMetadata = .ok (o.page r position stop) :=
    page_ok rfl hentries hnext hmetadata
  have hone : ¬ 1 < (o.page r position stop).entries.length := by
    rw [Object.page]
    split
    · exact Nat.not_lt_zero 1
    · exact Nat.lt_irrefl 1
  have hboundary : ¬ ((stop : Int) > maxSafe ∨ stop > o.size ∨
      (if (o.page r position stop).nextCursor = none then stop ≠ o.size
        else (o.page r position stop).entries = [] ∨ stop ≥ o.size)) := by
    rintro (hover | hover | hover)
    · omega
    · omega
    · by_cases hlt : stop < o.size
      · have hne : stop ≠ position := fun heq => by
          have hzero := h.progress heq.symm
          omega
        rw [Object.page, if_pos hlt, if_neg hne, if_neg (Option.some_ne_none _)] at hover
        rcases hover with hnil | hge
        · cases hnil
        · omega
      · rw [Object.page, if_neg hlt, if_pos rfl] at hover
        omega
  rw [decodeGitBlobPage, hpage]
  simp only [bind, Except.bind, hstop, if_neg hone]
  exact if_neg hboundary

/-! ## The pages put together -/

/-- Where the page of a turn ends. -/
def Turn.stop (o : Object) (t : Turn) (position : Nat) : Nat :=
  Cli.blobStop (t.budget.getD 65536) position o.size

theorem safe_usize (hsafe : (o.size : Int) ≤ maxSafe) : o.size ≤ Cli.usizeMax := by
  have hmax : maxSafe = 9007199254740991 := rfl
  have husize : Cli.usizeMax = 18446744073709551615 := rfl
  omega

theorem Turn.Serves.cut {t : Turn} (ht : t.Serves o) (hmax : o.size ≤ Cli.usizeMax)
    {position : Nat} (h : position < o.size ∨ position = 0) :
    o.Cut position (t.stop o position) := by
  have hprogress := @progress_blobStop (t.budget.getD 65536) position o.size hmax
  exact ⟨le_blobStop (by omega) hmax, Nat.min_le_right _ _, blobStop_le ht.most, fun heq => by
    rw [Turn.stop] at heq
    omega⟩

/-- Where the agent starts: at the front, or at a cursor of this blob. -/
theorem Object.blobOffset_cursor {position : Nat} (h : position < 2 ^ 64) :
    Cli.blobOffset (Cli.blobSnapshot r.ref o.id) (some (o.cursor r position).encode) =
      .ok position := by
  have hmatch : ¬ ((o.cursor r position).s ≠ Cli.blobSnapshot r.ref o.id ∨
      (o.cursor r position).k ≠ none) := by
    rintro (hs | hk)
    · exact hs rfl
    · exact hk rfl
  have hoffset : (o.cursor r position).o.toNat = position := by
    rw [Object.cursor, UInt64.toNat_ofNat', Nat.mod_eq_of_lt h]
  rw [Cli.blobOffset, Object.decode_cursor]
  simp only [bind, Except.bind, if_neg hmatch, hoffset]

theorem Object.validate_first (stop : Nat) :
    validateInitialGitBlobPage (o.page r 0 stop) = .ok (o.page r 0 stop) := by
  have hfirst : ¬ ((o.page r 0 stop).entries.head?.any fun first => first.offset ≠ 0) = true := by
    rw [Object.page]
    split
    · exact Bool.false_ne_true
    · exact Bool.false_ne_true
  rw [validateInitialGitBlobPage, if_neg hfirst]

/-- A page that is answered and passes the checks. -/
theorem readBlobPage_ok {repo : Tokens.RepoRef} {id : String} {cursor : Option String} {t : Turn}
    {value : Value} {result : GitBlobPage}
    (hblob : Cli.blob repo id t.budget cursor true t.git = .ok value)
    (hdecode : decodeGitBlobPage (some value) = .ok result)
    (hid : result.metadata.oid.hex = id.toLower)
    (hfirst : cursor = none → validateInitialGitBlobPage result = .ok result) :
    readBlobPage repo id cursor t = .ok result := by
  have hneg : ¬ result.metadata.oid.hex ≠ id.toLower := not_not_intro hid
  rw [readBlobPage, hblob]
  simp only [bind, Except.bind, Except.mapError, hdecode, if_neg hneg]
  cases cursor with
  | none => simp only [hfirst rfl]
  | some cursor => rfl

/-- The page of a turn is read for what it is. -/
theorem readBlobPage_at {t : Turn} (ht : t.Serves o) (hsafe : (o.size : Int) ≤ maxSafe)
    {cursor : Option String} {position : Nat}
    (hposition : cursor = none ∧ position = 0 ∨
      cursor = some (o.cursor r position).encode ∧ position < o.size) :
    readBlobPage r.ref o.id cursor t = .ok (o.page r position (t.stop o position)) := by
  have hmax := safe_usize hsafe
  have hlt : position < 2 ^ 64 := by
    have husize : Cli.usizeMax = 18446744073709551615 := rfl
    omega
  have hoffset : Cli.blobOffset (Cli.blobSnapshot r.ref o.id) cursor = .ok position := by
    rcases hposition with ⟨rfl, rfl⟩ | ⟨rfl, -⟩
    · rfl
    · exact Object.blobOffset_cursor hlt
  have hcut : o.Cut position (t.stop o position) := ht.cut hmax (by omega)
  have hblob := blob_at ht hmax (by omega) hoffset
  rw [← Turn.stop] at hblob
  apply readBlobPage_ok hblob (decode_blobPage hcut hsafe) Object.toLower_id.symm
  rintro rfl
  rcases hposition with ⟨-, rfl⟩ | ⟨h, -⟩
  · exact Object.validate_first _
  · cases h

/-- The content up to a position, and the cursor that goes on there. -/
structure Loaded (r : Repository) (o : Object) (page : GitBlobPage) (position : Nat) : Prop where
  snapshot : page.snapshot = (Cli.blobSnapshot r.ref o.id).encode
  metadata : page.metadata = ⟨⟨o.format, o.id⟩, o.size⟩
  within : position ≤ o.size
  nextCursor : page.nextCursor =
    if position < o.size then some (o.cursor r position).encode else none
  chunks : chunksEnd page.entries = position
  content : joined page = some (o.content.take position)

/-- The bytes of chunks and of those behind them. -/
theorem joined_append {page incoming : GitBlobPage} {as bs : List UInt8}
    (hpage : joined page = some as) (hincoming : joined incoming = some bs) :
    joined { incoming with entries := page.entries ++ incoming.entries } = some (as ++ bs) := by
  obtain ⟨ps, hps, rfl⟩ := Option.map_eq_some_iff.mp hpage
  obtain ⟨qs, hqs, rfl⟩ := Option.map_eq_some_iff.mp hincoming
  rw [joined, List.mapM_append, hps, hqs, ← List.flatten_append]
  rfl

theorem Object.joined_page (position stop : Nat) :
    joined (o.page r position stop) = some (o.slice position stop) := by
  by_cases heq : stop = position
  · have hnil : o.slice position stop = [] := by
      rw [Object.slice, heq, Nat.sub_self, List.take_zero]
    rw [joined, Object.page, if_pos heq, hnil]
    rfl
  · have hdecode : Base64.standard.decode
        (chunk position (o.slice position stop)).bytesB64.toList =
        some (o.slice position stop) := by
      rw [chunk, String.toList_ofList, Base64.Engine.decode_encode]
    rw [joined, Object.page, if_neg heq, List.mapM_cons, hdecode, List.mapM_nil]
    show some (o.slice position stop ++ []) = _
    rw [List.append_nil]

/-- One more page. -/
theorem Loaded.step {page : GitBlobPage} {position : Nat} (h : Loaded r o page position)
    {t : Turn} (ht : t.Serves o) (hsafe : (o.size : Int) ≤ maxSafe) :
    ∃ page' position', loadBlobPage r.ref o.id page t = .ok page' ∧
      Loaded r o page' position' ∧ min (position + 768) o.size ≤ position' := by
  have hnext := h.nextCursor
  by_cases hlt : position < o.size
  · have hcut := ht.cut (safe_usize hsafe) (.inl hlt)
    have hread := @readBlobPage_at r o t ht hsafe (some (o.cursor r position).encode) position
      (.inr ⟨rfl, hlt⟩)
    have hprogress := @progress_blobStop (t.budget.getD 65536) position o.size (safe_usize hsafe)
    have hmore : position ≠ t.stop o position := by
      intro heq
      have hzero := hcut.progress heq
      omega
    rw [if_pos hlt] at hnext
    have hentries : (o.page r position (t.stop o position)).entries =
        [chunk position (o.slice position (t.stop o position))] := if_neg hmore.symm
    have hcontiguous : ¬ ((o.page r position (t.stop o position)).entries.head?.all fun first =>
        first.offset ≠ chunksEnd page.entries) = true := by
      rw [hentries, h.chunks]
      simp [chunk]
    have hfresh : (o.page r position (t.stop o position)).nextCursor ≠
        some (o.cursor r position).encode := by
      intro heq
      have husize := safe_usize hsafe
      have hmax : Cli.usizeMax = 18446744073709551615 := rfl
      have hwithin := hcut.within
      have hcursor : (o.page r position (t.stop o position)).nextCursor =
          if t.stop o position < o.size then some (o.cursor r (t.stop o position)).encode
            else none := rfl
      rw [hcursor] at heq
      by_cases hend : t.stop o position < o.size
      · rw [if_pos hend] at heq
        exact hmore (Object.cursor_injective (by omega) (by omega) (Option.some.inj heq)).symm
      · rw [if_neg hend] at heq
        exact absurd heq.symm (Option.some_ne_none _)
    have happend := @appendGitPage_ok _ _ _ page (o.page r position (t.stop o position)) _ hnext
      h.snapshot h.metadata hfresh
    refine ⟨{ o.page r position (t.stop o position) with
      entries := page.entries ++ (o.page r position (t.stop o position)).entries },
      t.stop o position, ?_, ⟨rfl, rfl, hcut.within, rfl, ?_, ?_⟩, hprogress⟩
    · rw [loadBlobPage, hnext]
      simp only [bind, Except.bind, hread, appendGitBlobPage, if_neg hcontiguous, happend]
      rfl
    · have hlast := @Object.chunksEnd_page r o position _ hcut
      rw [hentries] at hlast ⊢
      rw [chunksEnd, List.getLast?_concat]
      exact hlast
    · rw [joined_append h.content (Object.joined_page position _), Object.take_slice hcut.le]
  · rw [if_neg hlt] at hnext
    refine ⟨page, position, ?_, h, by omega⟩
    rw [loadBlobPage, hnext]

theorem min_advance {position position₁ position₂ size m n : Nat}
    (h₁ : min (position + m) size ≤ position₁) (h₂ : min (position₁ + n) size ≤ position₂) :
    min (position + (n + m)) size ≤ position₂ := by
  omega

/-- As many more as there are turns. -/
theorem Loaded.run : ∀ {rest : List Turn} {page : GitBlobPage} {position : Nat},
    Loaded r o page position → (∀ t ∈ rest, t.Serves o) → (o.size : Int) ≤ maxSafe →
    ∃ page' position', rest.foldlM (loadBlobPage r.ref o.id) page = .ok page' ∧
      Loaded r o page' position' ∧ min (position + 768 * rest.length) o.size ≤ position'
  | [], page, position, h, _, _ => ⟨page, position, rfl, h, by
    rw [List.length_nil]
    omega⟩
  | t :: rest, page, position, h, hrest, hsafe => by
    obtain ⟨page₁, position₁, hload, h₁, hle₁⟩ := h.step (hrest t List.mem_cons_self) hsafe
    obtain ⟨page₂, position₂, hfold, h₂, hle₂⟩ :=
      h₁.run (fun u hu => hrest u (List.mem_cons_of_mem t hu)) hsafe
    refine ⟨page₂, position₂, ?_, h₂, ?_⟩
    · rw [List.foldlM_cons, hload]
      exact hfold
    · exact min_advance hle₁ hle₂

end Porthop.Git.Response
