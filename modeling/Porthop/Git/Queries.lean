import Porthop.Git.Issued
import Porthop.Lib.Splits

/- Two queries have two texts: a cursor that was issued for one of them names it. -/
namespace Porthop.Git.Tokens.Query

/-- What stands before the first colon of a query's text. -/
def name : Query → String
  | statusSnapshot | status _ _ => "cli.status"
  | worktreesSnapshot | worktrees _ _ _ => "cli.worktrees"
  | history _ _ => "cli.history"
  | diff _ _ _ _ _ => "cli.diff"
  | commitDiff _ _ _ _ _ _ => "cli.commit_diff"
  | commitFiles _ _ => "cli.commit_files"
  | blob _ => "cli.blob"
  | branches _ _ => "cli.branches"
  | remoteNames _ => "cli.remote_names"
  | remoteRefs _ _ _ _ => "cli.remote_refs"
  | tags _ => "cli.tags"
  | stashes => "cli.stashes"

/-- What stands behind it, if there is one. -/
def rest : Query → Option (List Char)
  | statusSnapshot | worktreesSnapshot | stashes => none
  | status text group => some (.arr [.str text, .str group] : Value).render
  | worktrees filter branch name =>
    some (.arr [.str filter, optionalText branch, optionalText name] : Value).render
  | history revision budget => some (.arr [.str revision, .num budget] : Value).render
  | diff snapshot entryId side contextLines lineEncoding =>
    some (.arr [.str snapshot, .str entryId, .str side.text, .num contextLines,
      optionalText lineEncoding] : Value).render
  | commitDiff commitOid parentIndex bytesB64 display contextLines lineEncoding =>
    some (.arr [.str commitOid, .num parentIndex,
      .obj [("bytesB64", .str bytesB64), ("display", .str display)],
      .num contextLines, optionalText lineEncoding] : Value).render
  | commitFiles id parent => some (id.toList ++ ':' :: Nat.toDigits 10 parent)
  | blob id => some id.toList
  | branches filter kind => some (.arr [.str filter, .str kind] : Value).render
  | remoteNames filter => some filter.toList
  | remoteRefs name token push filter =>
    some (.arr [.str name, .str token, .bool push, .str filter] : Value).render
  | tags budget => some (Nat.toDigits 10 budget)

theorem toList_queryText {text word : String} (htext : text.toList = word.toList ++ [':'])
    (v : Value) : (queryText text v).toList = word.toList ++ ':' :: v.render := by
  rw [queryText, String.toList_append, htext, String.toList_ofList, List.append_assoc]
  rfl

theorem toList_plain {text word : String} (htext : text.toList = word.toList ++ [':'])
    (s : String) : (text ++ s).toList = word.toList ++ ':' :: s.toList := by
  rw [String.toList_append, htext, List.append_assoc]
  rfl

theorem toList_text (q : Query) :
    q.text.toList = q.name.toList ++ q.rest.elim [] fun rest => ':' :: rest := by
  cases q with
  | statusSnapshot | worktreesSnapshot | stashes => exact (List.append_nil _).symm
  | status text group =>
    exact @toList_queryText "cli.status:" "cli.status" (by decide) _
  | history revision budget =>
    exact @toList_queryText "cli.history:" "cli.history" (by decide) _
  | diff snapshot entryId side contextLines lineEncoding =>
    exact @toList_queryText "cli.diff:" "cli.diff" (by decide) _
  | commitDiff commitOid parentIndex bytesB64 display contextLines lineEncoding =>
    exact @toList_queryText "cli.commit_diff:" "cli.commit_diff" (by decide) _
  | branches filter kind =>
    exact @toList_queryText "cli.branches:" "cli.branches" (by decide) _
  | remoteRefs name token push filter =>
    exact @toList_queryText "cli.remote_refs:" "cli.remote_refs" (by decide) _
  | worktrees filter branch name =>
    exact @toList_queryText "cli.worktrees:" "cli.worktrees" (by decide) _
  | blob id => exact @toList_plain "cli.blob:" "cli.blob" (by decide) _
  | remoteNames filter =>
    exact @toList_plain "cli.remote_names:" "cli.remote_names" (by decide) _
  | tags budget =>
    have hplain := @toList_plain "cli.tags:" "cli.tags" (by decide) budget.repr
    rw [Nat.toList_repr] at hplain
    exact hplain
  | commitFiles id parent =>
    have hplain := @toList_plain "cli.commit_files:" "cli.commit_files"
      (by decide) id
    show ("cli.commit_files:" ++ id ++ ":" ++ parent.repr).toList = _
    rw [String.toList_append, String.toList_append, hplain, Nat.toList_repr]
    simp [name, rest]

theorem colon_notMem_name (q : Query) : ':' ∉ q.name.toList := by
  cases q <;> (simp only [name]; decide)

theorem splitOnce_text (q : Query) : Splits.splitOnce ':' q.text.toList =
    q.rest.map fun rest => (q.name.toList, rest) := by
  rw [toList_text]
  cases q.rest with
  | none => exact Splits.splitOnce_none (by simpa using colon_notMem_name q)
  | some rest => exact Splits.splitOnce_cons (colon_notMem_name q) rest

/-- The text gives the name and what follows. -/
theorem parts_eq {q q' : Query} (h : q.text = q'.text) : q.name = q'.name ∧ q.rest = q'.rest := by
  have hsplit := congrArg (fun s : String => Splits.splitOnce ':' s.toList) h
  have hlist := congrArg String.toList h
  simp only [splitOnce_text] at hsplit
  rw [toList_text, toList_text] at hlist
  cases hq : q.rest with
  | none =>
    rw [hq] at hsplit hlist
    have hq' : q'.rest = none := Option.map_eq_none_iff.mp hsplit.symm
    rw [hq'] at hlist
    refine ⟨String.toList_inj.mp ?_, hq'.symm⟩
    simpa using hlist
  | some rest =>
    rw [hq] at hsplit
    obtain ⟨rest', hq', hparts⟩ := Option.map_eq_some_iff.mp hsplit.symm
    rw [Prod.mk.injEq] at hparts
    exact ⟨String.toList_inj.mp hparts.1.symm, by rw [hq', hparts.2]⟩

theorem render_inj {v v' : Value} (h : some v.render = some v'.render) : v = v' := by
  have hread : (some v.render).bind (@Json.read Int _) = (some v'.render).bind Json.read := by
    rw [h]
  simpa only [Option.bind_some, Json.read_render, Option.some.injEq] using hread

theorem optionalText_inj {s s' : Option String} : optionalText s = optionalText s' ↔ s = s' := by
  cases s <;> cases s' <;> simp [optionalText]

theorem side_text_inj {s s' : Side} : s.text = s'.text ↔ s = s' := by
  cases s <;> cases s' <;> simp [Side.text]

theorem toDigits_inj {n n' : Nat} (h : Nat.toDigits 10 n = Nat.toDigits 10 n') : n = n' := by
  have hread := congrArg (fun ds => Nat.ofDigitChars 10 ds 0) h
  simpa only [Nat.ofDigitChars_ten_toDigits] using hread

theorem colon_notMem_digits (n : Nat) : ':' ∉ (Nat.toDigits 10 n).reverse := fun hc =>
  absurd (Nat.isDigit_of_mem_toDigits (by decide) (by decide) (List.mem_reverse.mp hc)) (by decide)

/-- The parent is what follows the last colon. -/
theorem commitFiles_inj {id id' : String} {parent parent' : Nat}
    (h : id.toList ++ ':' :: Nat.toDigits 10 parent =
      id'.toList ++ ':' :: Nat.toDigits 10 parent') : id = id' ∧ parent = parent' := by
  have hsplit := congrArg (fun cs => Splits.splitOnce ':' (List.reverse cs)) h
  simp only [List.reverse_append, List.reverse_cons, List.append_assoc, List.cons_append,
    List.nil_append, Splits.splitOnce_cons (colon_notMem_digits _), Option.some.injEq,
    Prod.mk.injEq, List.reverse_inj] at hsplit
  exact ⟨String.toList_inj.mp hsplit.2, toDigits_inj hsplit.1⟩

theorem text_injective : Function.Injective text := by
  intro q q' h
  obtain ⟨hname, hrest⟩ := parts_eq h
  cases q <;> cases q' <;>
    first
    | rfl
    | (simp [name] at hname; done)
    | (simp [rest] at hrest; done)
    | skip
  case blob.blob | remoteNames.remoteNames =>
    simpa [rest, String.toList_inj] using hrest
  case tags.tags =>
    rw [toDigits_inj (Option.some.inj hrest)]
  case commitFiles.commitFiles =>
    obtain ⟨hid, hparent⟩ := commitFiles_inj (Option.some.inj hrest)
    rw [hid, hparent]
  all_goals
    have harguments := render_inj hrest
    simpa [optionalText_inj, side_text_inj, and_assoc] using harguments

end Porthop.Git.Tokens.Query
