import Mathlib.Data.List.DropRight
import Porthop.Profile.Tunnels

/- Which saved tunnels already forward a discovered port (`forwarding.ts`), and the check that
   a new tunnel meets when it is saved (`model.rs`). Both compare hosts by a name of their own.

   An address of version 6 has one name for all its spellings on each side: the one the
   browser gives it in a URL and the one the standard library prints. -/
namespace Porthop.Profile

/-- What discovery found, as far as forwarding reads it. -/
structure DiscoveredPort where
  port : UInt16
  address : String
  deriving DecidableEq

namespace Frontend

/-- `host.replace(/\.$/, "")` -/
def stripEndDot (host : String) : String :=
  if host.toList.getLast? = some '.' then String.ofList host.toList.dropLast else host

/-- `url` is the name that `new URL` gives the host in brackets, if it does not throw. -/
def forwardingHost (url : String → Option String) (address : String) : String :=
  let host := stripEndDot address.toLower
  if host ∈ ["0.0.0.0", "*", "localhost"] then "127.0.0.1"
  else if ':' ∈ host.toList then
    match url host with
    | some normalized => if normalized = "::" then "::1" else normalized
    | none => host
  else host

def forwardsForPort (url : String → Option String) (tunnels : List Tunnel) (serverId : Uuid)
    (port : DiscoveredPort) : List Tunnel :=
  tunnels.filter fun t =>
    t.serverId = serverId ∧ forwardingHost url t.remoteHost = forwardingHost url port.address ∧
      t.remotePort ≤ port.port ∧ port.port ≤ t.remotePortEnd.getD t.remotePort

end Frontend

/-- How the browser and the standard library read and write addresses: both find the same 128
    bits in a literal, and neither writes two addresses alike. -/
structure Literals (A : Addresses) where
  value : String → Option (BitVec 128)
  print : BitVec 128 → String
  url : String → Option String
  hostname : BitVec 128 → String
  isV6_eq : ∀ s : String, A.isV6 s = (value s).isSome
  normal_eq : ∀ (s : String) (a : BitVec 128), value s = some a → A.normal s = some (print a)
  normal_plain : ∀ s n : String, ':' ∉ s.toList → A.normal s = some n → n = s
  url_eq : ∀ (s : String) (a : BitVec 128), value s = some a → url s = some (hostname a)
  value_toLower : ∀ s : String, value s.toLower = value s
  value_colon : ∀ (s : String) (a : BitVec 128), value s = some a → ':' ∈ s.toList
  value_end : ∀ (s : String) (a : BitVec 128), value s = some a → s.toList.getLast? ≠ some '.'
  print_colon : ∀ a : BitVec 128, ':' ∈ (print a).toList
  print_injective : Function.Injective print
  print_zero : print 0 = "::"
  print_one : print 1 = "::1"
  hostname_colon : ∀ a : BitVec 128, ':' ∈ (hostname a).toList
  hostname_injective : Function.Injective hostname
  hostname_zero : hostname 0 = "::"
  hostname_one : hostname 1 = "::1"

/-! ## Dots at the end -/

section
variable {α : Type}

/-- How many times the list ends in the element. -/
def trailing [DecidableEq α] (c : α) (l : List α) : Nat := (l.rtakeWhile (· = c)).length

theorem rdropWhile_append_replicate [DecidableEq α] (c : α) (l : List α) :
    l.rdropWhile (· = c) ++ List.replicate (trailing c l) c = l := by
  have hall : ∀ b ∈ l.rtakeWhile (· = c), b = c := by
    intro b hb
    simpa using List.mem_rtakeWhile_imp hb
  calc l.rdropWhile (· = c) ++ List.replicate (trailing c l) c
      = l.rdropWhile (· = c) ++ l.rtakeWhile (· = c) := by
        rw [trailing, ← List.eq_replicate_of_mem hall]
    _ = l := List.rdropWhile_append_rtakeWhile

theorem getLast?_rdropWhile [DecidableEq α] (c : α) (l : List α) :
    (l.rdropWhile (· = c)).getLast? ≠ some c := by
  intro h
  obtain ⟨hne, hlast⟩ := List.mem_getLast?_eq_getLast h
  exact List.rdropWhile_last_not (· = c) l hne (by simpa using hlast.symm)

theorem getLast?_append_replicate (c : α) (l : List α) (n : Nat) :
    (l ++ List.replicate (n + 1) c).getLast? = some c := by
  rw [List.replicate_succ', ← List.append_assoc, List.getLast?_concat]

/-- What comes before the repeated end, and how often it is repeated. -/
theorem append_replicate_inj {c : α} {xs ys : List α} (hx : xs.getLast? ≠ some c)
    (hy : ys.getLast? ≠ some c) {m n : Nat}
    (h : xs ++ List.replicate m c = ys ++ List.replicate n c) : xs = ys ∧ m = n := by
  induction m generalizing n with
  | zero =>
    cases n with
    | zero => simpa using h
    | succ n =>
      rw [List.replicate_zero, List.append_nil] at h
      exact absurd (by rw [h, getLast?_append_replicate]) hx
  | succ m ih =>
    cases n with
    | zero =>
      rw [List.replicate_zero, List.append_nil] at h
      exact absurd (by rw [← h, getLast?_append_replicate]) hy
    | succ n =>
      rw [List.replicate_succ', List.replicate_succ', ← List.append_assoc,
        ← List.append_assoc] at h
      obtain ⟨hxs, hmn⟩ := ih (List.append_cancel_right h)
      exact ⟨hxs, congrArg (· + 1) hmn⟩

end

/-- Lower case moves no character to a sign or away from one. -/
theorem toLower_eq_sign {c d : Char} (hd : d.val.toNat < 65) : c.toLower = d ↔ c = d := by
  unfold Char.toLower
  split
  · next hupper =>
    have hlow : 65 ≤ c.val.toNat := hupper.1
    have hhigh : c.val.toNat ≤ 90 := hupper.2
    constructor
    · intro h
      have hval : (c.val + 32).toNat = d.val.toNat := congrArg (fun e : Char => e.val.toNat) h
      rw [UInt32.toNat_add] at hval
      have hthirtyTwo : (32 : UInt32).toNat = 32 := rfl
      omega
    · intro h
      rw [h] at hlow
      omega
  · rfl

theorem mem_toLower {s : String} {d : Char} (hd : d.val.toNat < 65) :
    d ∈ s.toLower.toList ↔ d ∈ s.toList := by
  have hlist : s.toLower.toList = s.toList.map Char.toLower := String.toList_map
  rw [hlist, List.mem_map]
  constructor
  · rintro ⟨c, hc, h⟩
    rwa [← (toLower_eq_sign hd).mp h]
  · exact fun h => ⟨d, h, (toLower_eq_sign hd).mpr rfl⟩

/-! ## Names of hosts -/

/-- The host in lower case, without the dots it ends in. -/
def hostName (host : String) : String := (trimEndDots host).toLower

/-- How many dots a host ends in, beyond the one that stands for the root. -/
def spareDots (host : String) : Nat := trailing '.' host.toList - 1

/-- The two hosts are written with as many spare dots, and where there are any, alike but for
    upper case. -/
def SameDots (a b : String) : Prop :=
  spareDots a = spareDots b ∧ (spareDots a = 0 ∨ hostName a = hostName b)

theorem toList_trimEndDots (s : String) :
    (trimEndDots s).toList = s.toList.rdropWhile (· = '.') := by
  rw [trimEndDots, String.toList_ofList]
  rfl

theorem dot_comp_toLower :
    ((fun c : Char => decide (c = '.')) ∘ Char.toLower) = fun c => decide (c = '.') := by
  funext c
  exact decide_eq_decide.mpr (toLower_eq_sign (by decide))

theorem toList_hostName (host : String) :
    (hostName host).toList = host.toLower.toList.rdropWhile (· = '.') := by
  calc (hostName host).toList
      = (trimEndDots host).toList.map Char.toLower := String.toList_map
    _ = (host.toList.rdropWhile (· = '.')).map Char.toLower := by rw [toList_trimEndDots]
    _ = (host.toList.map Char.toLower).rdropWhile (· = '.') := by
        rw [List.rdropWhile, List.rdropWhile, ← List.map_reverse, List.dropWhile_map,
          dot_comp_toLower, List.map_reverse]
    _ = host.toLower.toList.rdropWhile (· = '.') := by
        rw [show host.toLower.toList = host.toList.map Char.toLower from String.toList_map]

theorem trailing_toLower (host : String) :
    trailing '.' host.toLower.toList = trailing '.' host.toList := by
  rw [show host.toLower.toList = host.toList.map Char.toLower from String.toList_map, trailing,
    trailing, List.rtakeWhile, List.rtakeWhile, ← List.map_reverse, List.takeWhile_map,
    dot_comp_toLower, List.length_reverse, List.length_reverse, List.length_map]

theorem mem_stripEndDot {host : String} {c : Char}
    (h : c ∈ (Frontend.stripEndDot host).toList) : c ∈ host.toList := by
  rw [Frontend.stripEndDot] at h
  split at h
  · rw [String.toList_ofList] at h
    exact List.mem_of_mem_dropLast h
  · exact h

/-- What the browser's side keeps: all the dots but one. -/
theorem toList_stripEndDot (host : String) : (Frontend.stripEndDot host.toLower).toList =
    (hostName host).toList ++ List.replicate (spareDots host) '.' := by
  have hsplit := rdropWhile_append_replicate '.' host.toLower.toList
  rw [← toList_hostName, trailing_toLower] at hsplit
  have hlast : (hostName host).toList.getLast? ≠ some '.' := by
    rw [toList_hostName]
    exact getLast?_rdropWhile '.' host.toLower.toList
  rw [Frontend.stripEndDot, spareDots]
  cases hn : trailing '.' host.toList with
  | zero =>
    rw [hn, List.replicate_zero, List.append_nil] at hsplit
    rw [hsplit] at hlast
    rw [if_neg hlast, Nat.zero_sub, List.replicate_zero, List.append_nil, hsplit]
  | succ n =>
    rw [hn] at hsplit
    have hdot : host.toLower.toList.getLast? = some '.' := by
      rw [← hsplit, getLast?_append_replicate]
    rw [if_pos hdot, String.toList_ofList, ← hsplit, Nat.add_sub_cancel, List.replicate_succ',
      ← List.append_assoc, List.dropLast_concat]

/-- What a host names, whatever way it is written. -/
inductive Destination where
  | loopback
  | address (a : BitVec 128)
  | name (s : String)
  deriving DecidableEq

namespace Destination

/-- Names are none of an address, nor of the loopback. -/
def Plain : Destination → Prop
  | name s => ':' ∉ s.toList ∧ s ≠ "127.0.0.1"
  | _ => True

def text (print : BitVec 128 → String) : Destination → String
  | loopback => "127.0.0.1"
  | address a => print a
  | name s => s

theorem text_injective {print : BitVec 128 → String} (hinj : Function.Injective print)
    (hcolon : ∀ a : BitVec 128, ':' ∈ (print a).toList) {d d' : Destination} (h : d.Plain)
    (h' : d'.Plain) : d.text print = d'.text print ↔ d = d' := by
  have hloop : ':' ∉ "127.0.0.1".toList := by decide
  refine ⟨fun heq => ?_, fun heq => by rw [heq]⟩
  cases d with
  | loopback =>
    cases d' with
    | loopback => rfl
    | address a =>
      have hmem := hcolon a
      rw [← show "127.0.0.1" = print a from heq] at hmem
      exact absurd hmem hloop
    | name s => exact absurd heq.symm h'.2
  | address a =>
    have hmem := hcolon a
    cases d' with
    | loopback =>
      rw [show print a = "127.0.0.1" from heq] at hmem
      exact absurd hmem hloop
    | address a' => rw [hinj heq]
    | name s =>
      rw [show print a = s from heq] at hmem
      exact absurd hmem h'.1
  | name s =>
    cases d' with
    | loopback => exact absurd heq h.2
    | address a =>
      have hmem := hcolon a
      rw [← show s = print a from heq] at hmem
      exact absurd hmem h.1
    | name s' => exact congrArg name heq

end Destination

namespace Literals

variable {A : Addresses} (L : Literals A) {host a b : String}

/-- The unspecified address is taken for the loopback of its version. -/
def destinationOf (name : String) : Destination :=
  match L.value name with
  | some a => .address (if a = 0 then 1 else a)
  | none => if name ∈ ["localhost", "0.0.0.0", "127.0.0.1"] then .loopback else .name name

/-- Where a host leads. -/
def destination (host : String) : Destination := L.destinationOf (hostName host)

/-- What is not a literal has no colon. -/
def Read (name : String) : Prop := L.value name = none → ':' ∉ name.toList

theorem destinationOf_plain {name : String} (h : L.Read name) : (L.destinationOf name).Plain := by
  rw [destinationOf]
  cases hv : L.value name with
  | some a => trivial
  | none =>
    show (if name ∈ ["localhost", "0.0.0.0", "127.0.0.1"] then Destination.loopback
      else Destination.name name).Plain
    split
    · trivial
    · next hnames =>
      refine ⟨h hv, fun hname => hnames ?_⟩
      rw [hname]
      decide

theorem value_none {name : String} (h : ':' ∉ name.toList) : L.value name = none := by
  cases hv : L.value name with
  | none => rfl
  | some a => exact absurd (L.value_colon name a hv) h

/-- A host with a colon is a literal, which ends in no dot. -/
theorem literal_of_colon (h : hostValid A host) (hcolon : ':' ∈ host.toList) :
    (∃ a : BitVec 128, L.value host.toLower = some a) ∧ trailing '.' host.toList = 0 ∧
      hostName host = host.toLower := by
  rw [hostValid, decide_eq_true_eq] at h
  obtain ⟨a, ha⟩ : ∃ a, L.value host = some a := by
    have hv6 := h.1.resolve_left fun hnot => hnot hcolon
    rw [L.isV6_eq] at hv6
    exact Option.isSome_iff_exists.mp hv6
  have hvalue : L.value host.toLower = some a := by rw [L.value_toLower, ha]
  have hsplit := rdropWhile_append_replicate '.' host.toLower.toList
  rw [← toList_hostName, trailing_toLower] at hsplit
  have hzero : trailing '.' host.toList = 0 := by
    cases hn : trailing '.' host.toList with
    | zero => rfl
    | succ n =>
      rw [hn] at hsplit
      exact absurd (by rw [← hsplit, getLast?_append_replicate]) (L.value_end _ a hvalue)
  rw [hzero, List.replicate_zero, List.append_nil] at hsplit
  exact ⟨⟨a, hvalue⟩, hzero, String.ext hsplit⟩

theorem colon_hostName (h : ':' ∉ host.toList) : ':' ∉ (hostName host).toList := by
  rw [toList_hostName]
  intro hmem
  have hlower := (List.rdropWhile_prefix (· = '.') (l := host.toLower.toList)).subset hmem
  exact h ((mem_toLower (by decide)).mp hlower)

theorem read_hostName (h : hostValid A host) : L.Read (hostName host) := by
  by_cases hcolon : ':' ∈ host.toList
  · obtain ⟨⟨a, ha⟩, -, hname⟩ := L.literal_of_colon h hcolon
    intro hnone
    rw [hname, ha] at hnone
    cases hnone
  · exact fun _ => colon_hostName hcolon

theorem forwardingHost_eq (h : hostValid A host) :
    forwardingHost A host = (L.destination host).text L.print := by
  have hread := L.read_hostName h
  rw [destination, destinationOf]
  unfold forwardingHost
  change (let host := (A.normal (hostName host)).getD (hostName host);
    if host = "localhost" ∨ host = "0.0.0.0" then "127.0.0.1"
    else if host = "::" then "::1" else host) = _
  cases hv : L.value (hostName host) with
  | some a =>
    have hcolon := L.print_colon a
    have hnames : ¬(L.print a = "localhost" ∨ L.print a = "0.0.0.0") := by
      rintro (heq | heq)
      · rw [heq] at hcolon
        exact absurd hcolon (by decide)
      · rw [heq] at hcolon
        exact absurd hcolon (by decide)
    simp only [L.normal_eq _ a hv, Option.getD_some, if_neg hnames]
    by_cases hzero : a = 0
    · rw [hzero, if_pos L.print_zero, if_pos rfl]
      exact L.print_one.symm
    · have hne : L.print a ≠ "::" := by
        rw [← L.print_zero]
        exact fun heq => hzero (L.print_injective heq)
      rw [if_neg hne, if_neg hzero]
      rfl
  | none =>
    have hcolon := hread hv
    have hnormal : (A.normal (hostName host)).getD (hostName host) = hostName host := by
      cases hn : A.normal (hostName host) with
      | none => rfl
      | some n => exact L.normal_plain _ n hcolon hn
    have hne : hostName host ≠ "::" := by
      intro heq
      rw [heq] at hcolon
      exact hcolon (by decide)
    simp only [hnormal, if_neg hne]
    by_cases hloop : hostName host = "localhost" ∨ hostName host = "0.0.0.0"
    · rw [if_pos hloop, if_pos]
      · rfl
      · rcases hloop with hloop | hloop
        · simp [hloop]
        · simp [hloop]
    · rw [if_neg hloop]
      split
      · next hmem =>
        simp only [List.mem_cons, List.not_mem_nil, or_false] at hmem
        rcases hmem with hmem | hmem | hmem
        · exact absurd (Or.inl hmem) hloop
        · exact absurd (Or.inr hmem) hloop
        · exact hmem
      · rfl

theorem stripEndDot_of_colon (L : Literals A) (h : hostValid A host) (hcolon : ':' ∈ host.toList) :
    Frontend.stripEndDot host.toLower = host.toLower := by
  obtain ⟨-, hzero, hname⟩ := L.literal_of_colon h hcolon
  apply String.ext
  rw [toList_stripEndDot, spareDots, hzero, hname]
  exact List.append_nil host.toLower.toList

theorem read_stripEndDot (h : hostValid A host) :
    L.Read (Frontend.stripEndDot host.toLower) := by
  by_cases hcolon : ':' ∈ host.toList
  · obtain ⟨⟨a, ha⟩, -, -⟩ := L.literal_of_colon h hcolon
    intro hnone
    rw [L.stripEndDot_of_colon h hcolon, ha] at hnone
    cases hnone
  · exact fun _ hmem => hcolon ((mem_toLower (by decide)).mp (mem_stripEndDot hmem))

theorem stripEndDot_ne_star (h : hostValid A host) :
    Frontend.stripEndDot host.toLower ≠ "*" := by
  intro heq
  have hmem : '*' ∈ (Frontend.stripEndDot host.toLower).toList := by
    rw [heq]
    decide
  have hstar := hostValid_char h ((mem_toLower (by decide)).mp (mem_stripEndDot hmem))
  exact absurd hstar (by decide)

theorem frontend_eq (h : hostValid A host) : Frontend.forwardingHost L.url host =
    (L.destinationOf (Frontend.stripEndDot host.toLower)).text L.hostname := by
  have hread := L.read_stripEndDot h
  have hstar := stripEndDot_ne_star h
  rw [destinationOf]
  unfold Frontend.forwardingHost
  generalize Frontend.stripEndDot host.toLower = name at hread hstar
  cases hv : L.value name with
  | some a =>
    have hcolon := L.value_colon name a hv
    have hnames : name ∉ ["0.0.0.0", "*", "localhost"] := by
      intro hmem
      simp only [List.mem_cons, List.not_mem_nil, or_false] at hmem
      rcases hmem with rfl | rfl | rfl
      · exact absurd hcolon (by decide)
      · exact absurd hcolon (by decide)
      · exact absurd hcolon (by decide)
    simp only [if_neg hnames, if_pos hcolon, L.url_eq name a hv]
    by_cases hzero : a = 0
    · rw [hzero, if_pos L.hostname_zero, if_pos rfl]
      exact L.hostname_one.symm
    · have hne : L.hostname a ≠ "::" := by
        rw [← L.hostname_zero]
        exact fun heq => hzero (L.hostname_injective heq)
      rw [if_neg hne, if_neg hzero]
      rfl
  | none =>
    have hcolon := hread hv
    simp only [if_neg hcolon]
    by_cases hloop : name ∈ ["0.0.0.0", "*", "localhost"]
    · rw [if_pos hloop, if_pos]
      · rfl
      · simp only [List.mem_cons, List.not_mem_nil, or_false] at hloop ⊢
        rcases hloop with hloop | hloop | hloop
        · exact Or.inr (Or.inl hloop)
        · exact absurd hloop hstar
        · exact Or.inl hloop
    · rw [if_neg hloop]
      split
      · next hmem =>
        simp only [List.mem_cons, List.not_mem_nil, or_false] at hmem hloop
        rcases hmem with hmem | hmem | hmem
        · exact absurd (Or.inr (Or.inr hmem)) hloop
        · exact absurd (Or.inl hmem) hloop
        · exact hmem
      · rfl

theorem stripEndDot_of_none (h : spareDots host = 0) :
    Frontend.stripEndDot host.toLower = hostName host := by
  apply String.ext
  rw [toList_stripEndDot, h]
  exact List.append_nil (hostName host).toList

/-- Where a dot is left, the browser's side takes the rest for a name. -/
theorem destinationOf_spare (hspare : spareDots host ≠ 0) :
    L.destinationOf (Frontend.stripEndDot host.toLower) =
      .name (Frontend.stripEndDot host.toLower) := by
  have hlast : (Frontend.stripEndDot host.toLower).toList.getLast? = some '.' := by
    obtain ⟨n, hn⟩ := Nat.exists_eq_succ_of_ne_zero hspare
    rw [toList_stripEndDot, hn]
    exact getLast?_append_replicate '.' _ n
  have hnone : L.value (Frontend.stripEndDot host.toLower) = none := by
    cases hv : L.value (Frontend.stripEndDot host.toLower) with
    | none => rfl
    | some a => exact absurd hlast (L.value_end _ a hv)
  have hnames : Frontend.stripEndDot host.toLower ∉ ["localhost", "0.0.0.0", "127.0.0.1"] := by
    intro hmem
    simp only [List.mem_cons, List.not_mem_nil, or_false] at hmem
    rcases hmem with hmem | hmem | hmem
    · rw [hmem] at hlast
      exact absurd hlast (by decide)
    · rw [hmem] at hlast
      exact absurd hlast (by decide)
    · rw [hmem] at hlast
      exact absurd hlast (by decide)
  rw [destinationOf, hnone]
  exact if_neg hnames

theorem stripEndDot_inj
    (h : Frontend.stripEndDot a.toLower = Frontend.stripEndDot b.toLower) :
    hostName a = hostName b ∧ spareDots a = spareDots b := by
  have hlist := congrArg String.toList h
  rw [toList_stripEndDot, toList_stripEndDot] at hlist
  have hlast : ∀ host : String, (hostName host).toList.getLast? ≠ some '.' := by
    intro host
    rw [toList_hostName]
    exact getLast?_rdropWhile '.' host.toLower.toList
  obtain ⟨hname, hdots⟩ := append_replicate_inj (hlast a) (hlast b) hlist
  exact ⟨String.ext hname, hdots⟩

theorem destinationOf_name {name s : String} (h : L.destinationOf name = .name s) : name = s := by
  rw [destinationOf] at h
  cases hv : L.value name with
  | some a =>
    rw [hv] at h
    cases h
  | none =>
    rw [hv] at h
    change (if name ∈ ["localhost", "0.0.0.0", "127.0.0.1"] then Destination.loopback
      else Destination.name name) = _ at h
    split at h
    · cases h
    · exact Destination.name.inj h

theorem same_of_strip (h : Frontend.stripEndDot a.toLower = Frontend.stripEndDot b.toLower) :
    L.destination a = L.destination b ∧ SameDots a b := by
  obtain ⟨hname, hdots⟩ := stripEndDot_inj h
  refine ⟨?_, hdots, Or.inr hname⟩
  rw [destination, destination, hname]

/-- For the browser two hosts are the same if they lead to the same place and are written with
    the same dots. -/
theorem stripped_destination :
    L.destinationOf (Frontend.stripEndDot a.toLower) =
        L.destinationOf (Frontend.stripEndDot b.toLower) ↔
      L.destination a = L.destination b ∧ SameDots a b := by
  constructor
  · intro heq
    by_cases hza : spareDots a = 0
    · by_cases hzb : spareDots b = 0
      · rw [stripEndDot_of_none hza, stripEndDot_of_none hzb] at heq
        exact ⟨heq, hza.trans hzb.symm, Or.inl hza⟩
      · rw [L.destinationOf_spare hzb] at heq
        exact L.same_of_strip (L.destinationOf_name heq)
    · rw [L.destinationOf_spare hza] at heq
      exact L.same_of_strip (L.destinationOf_name heq.symm).symm
  · rintro ⟨hdest, hdots, hspare⟩
    by_cases hza : spareDots a = 0
    · rw [stripEndDot_of_none hza, stripEndDot_of_none (hdots.symm.trans hza)]
      exact hdest
    · have hname := hspare.resolve_left hza
      have hstrip : Frontend.stripEndDot a.toLower = Frontend.stripEndDot b.toLower := by
        apply String.ext
        rw [toList_stripEndDot, toList_stripEndDot, hname, hdots]
      rw [hstrip]

end Literals

/-! ## Saving a tunnel to a port -/

namespace Tunnel

variable {A : Addresses} {t other : Tunnel} {saved : List Tunnel} {serverId : Uuid}
  {port : DiscoveredPort}

/-- A new tunnel to the one port, from a local one that no saved tunnel uses. -/
structure ForPort (t : Tunnel) (serverId : Uuid) (port : DiscoveredPort)
    (saved : List Tunnel) : Prop where
  server : t.serverId = serverId
  host : t.remoteHost = port.address
  remote : t.remotePort = port.port
  remoteEnd : t.remoteEnd = port.port
  localPort : t.localPort ≠ 0
  localEnd : t.localEnd = t.localPort
  new : ∀ other ∈ saved, other.id ≠ t.id
  free : ∀ other ∈ saved, t.localOverlap other = false

/-- The tunnel may not be saved, since another one forwards its port. -/
def Refused (A : Addresses) (t : Tunnel) (saved : List Tunnel) : Prop :=
  ∃ other ∈ saved, t.validateUnique A saved =
    .error s!"This remote port is already forwarded by '{other.name}'. Edit the existing tunnel instead."

/-- Where the local ports are free, the first tunnel with a remote port in common is named. -/
theorem uniqueAmong_remote (hnew : ∀ other ∈ saved, other.id ≠ t.id)
    (hfree : ∀ other ∈ saved, t.localOverlap other = false) :
    t.uniqueAmong A saved = .ok () ∧ (∀ other ∈ saved, t.remoteOverlap A other = false) ∨
      ∃ other ∈ saved, t.remoteOverlap A other = true ∧ t.uniqueAmong A saved =
        .error s!"This remote port is already forwarded by '{other.name}'. Edit the existing tunnel instead." := by
  induction saved with
  | nil => exact Or.inl ⟨rfl, fun other hmem => absurd hmem List.not_mem_nil⟩
  | cons o saved ih =>
    have hid := hnew o List.mem_cons_self
    have hlocal : ¬t.localOverlap o = true := by
      rw [hfree o List.mem_cons_self]
      exact Bool.false_ne_true
    rw [uniqueAmong, if_neg hid, if_neg hlocal]
    by_cases hremote : t.remoteOverlap A o = true
    · exact Or.inr ⟨o, List.mem_cons_self, hremote, if_pos hremote⟩
    · rw [if_neg hremote]
      rcases ih (fun other hmem => hnew other (List.mem_cons_of_mem o hmem))
        (fun other hmem => hfree other (List.mem_cons_of_mem o hmem)) with hok | herror
      · refine Or.inl ⟨hok.1, fun other hmem => ?_⟩
        rcases List.mem_cons.mp hmem with rfl | hmem
        · exact eq_false_of_ne_true hremote
        · exact hok.2 other hmem
      · obtain ⟨other, hmem, hover, heq⟩ := herror
        exact Or.inr ⟨other, List.mem_cons_of_mem o hmem, hover, heq⟩

theorem ports_ne_forwarded (name : String) :
    "Ports must be 1–65535 and ranges must run from low to high." ≠
    s!"This remote port is already forwarded by '{name}'. Edit the existing tunnel instead." := by
  intro h
  have hhead := congrArg (fun s : String => s.toList.head?) h
  simp only [String.toList_append, List.head?_append] at hhead
  rw [show (toString "This remote port is already forwarded by '").toList.head? = some 'T' from rfl,
    Option.some_or, Option.some_or] at hhead
  exact absurd hhead (by decide)

theorem pairs_forPort (h : t.ForPort serverId port saved) (haddr : hostValid A port.address) :
    t.pairs A = if port.port = 0 then
        .error "Ports must be 1–65535 and ranges must run from low to high."
      else .ok (t.localPorts.zip t.remotePorts) := by
  have hhost : (!hostValid A t.remoteHost) = false := by
    rw [h.host, haddr]
    rfl
  rw [pairs, h.remote, h.remoteEnd, h.localEnd, hhost]
  by_cases hzero : port.port = 0
  · rw [if_pos hzero, if_pos (Or.inr (Or.inl hzero))]
  · have hrange : ¬(t.localPort = 0 ∨ port.port = 0 ∨ t.localPort < t.localPort ∨
        port.port < port.port) := by
      simp [h.localPort, hzero]
    rw [if_neg hzero, if_neg hrange]
    simp

/-- The refusal is exactly that some saved tunnel has the host and the port. -/
theorem refused_iff (h : t.ForPort serverId port saved) (haddr : hostValid A port.address)
    (hsaved : ∀ other ∈ saved, ∃ ps, other.pairs A = .ok ps) :
    t.Refused A saved ↔ ∃ other ∈ saved, t.remoteOverlap A other = true := by
  have hpairs := pairs_forPort h haddr
  by_cases hzero : port.port = 0
  · rw [if_pos hzero] at hpairs
    constructor
    · rintro ⟨other, -, herror⟩
      rw [validateUnique, hpairs] at herror
      exact absurd (Except.error.inj herror) (ports_ne_forwarded other.name)
    · rintro ⟨other, hmem, hover⟩
      obtain ⟨ps, hps⟩ := hsaved other hmem
      have hpos := (pairs_ok hps).1.remoteRange.1
      have hle := UInt16.le_iff_toNat_le.mp (of_decide_eq_true hover).2.2.2
      rw [h.remoteEnd, hzero] at hle
      exact absurd hle (Nat.not_le_of_lt hpos)
  · rw [if_neg hzero] at hpairs
    have hunique : t.validateUnique A saved = t.uniqueAmong A saved := by
      rw [validateUnique, hpairs]
      rfl
    rcases uniqueAmong_remote (A := A) h.new h.free with hok | ⟨other, hmem, hover, heq⟩
    · constructor
      · rintro ⟨other, -, herror⟩
        rw [hunique, hok.1] at herror
        cases herror
      · rintro ⟨other, hmem, hover⟩
        rw [hok.2 other hmem] at hover
        cases hover
    · exact ⟨fun _ => ⟨other, hmem, hover⟩, fun _ => ⟨other, hmem, hunique.trans heq⟩⟩

end Tunnel

namespace Literals

variable {A : Addresses} (L : Literals A) {a b : String} {t other : Tunnel} {saved : List Tunnel}
  {serverId : Uuid} {port : DiscoveredPort}

theorem backend_iff (ha : hostValid A a) (hb : hostValid A b) :
    forwardingHost A a = forwardingHost A b ↔ L.destination a = L.destination b := by
  rw [L.forwardingHost_eq ha, L.forwardingHost_eq hb]
  exact Destination.text_injective L.print_injective L.print_colon
    (L.destinationOf_plain (L.read_hostName ha)) (L.destinationOf_plain (L.read_hostName hb))

theorem frontend_iff (ha : hostValid A a) (hb : hostValid A b) :
    Frontend.forwardingHost L.url a = Frontend.forwardingHost L.url b ↔
      L.destination a = L.destination b ∧ SameDots a b := by
  rw [L.frontend_eq ha, L.frontend_eq hb, ← L.stripped_destination]
  exact Destination.text_injective L.hostname_injective L.hostname_colon
    (L.destinationOf_plain (L.read_stripEndDot ha)) (L.destinationOf_plain (L.read_stripEndDot hb))

/-- The tunnel leads to the port of the server. -/
structure Covers (serverId : Uuid) (port : DiscoveredPort) (t : Tunnel) : Prop where
  server : t.serverId = serverId
  destination : L.destination t.remoteHost = L.destination port.address
  low : t.remotePort ≤ port.port
  high : port.port ≤ t.remoteEnd

theorem remoteOverlap_iff (h : t.ForPort serverId port saved) (haddr : hostValid A port.address)
    (hother : hostValid A other.remoteHost) :
    t.remoteOverlap A other = true ↔ L.Covers serverId port other := by
  rw [Tunnel.remoteOverlap, decide_eq_true_eq, h.server, h.host, h.remote, h.remoteEnd,
    L.backend_iff haddr hother]
  constructor
  · intro h
    exact ⟨h.1.symm, h.2.1.symm, h.2.2.2, h.2.2.1⟩
  · exact fun hc => ⟨hc.server.symm, hc.destination.symm, hc.high, hc.low⟩

theorem forwards_ne_nil (haddr : hostValid A port.address)
    (hsaved : ∀ other ∈ saved, hostValid A other.remoteHost) :
    Frontend.forwardsForPort L.url saved serverId port ≠ [] ↔
      ∃ other ∈ saved, L.Covers serverId port other ∧ SameDots other.remoteHost port.address := by
  rw [Frontend.forwardsForPort]
  constructor
  · intro hne
    obtain ⟨other, hmem⟩ := List.exists_mem_of_ne_nil _ hne
    obtain ⟨hmem, hother⟩ := List.mem_filter.mp hmem
    obtain ⟨hserver, hhost, hlow, hhigh⟩ := of_decide_eq_true hother
    obtain ⟨hdest, hdots⟩ := (L.frontend_iff (hsaved other hmem) haddr).mp hhost
    exact ⟨other, hmem, ⟨hserver, hdest, hlow, hhigh⟩, hdots⟩
  · rintro ⟨other, hmem, hc, hdots⟩
    have hhost := (L.frontend_iff (hsaved other hmem) haddr).mpr ⟨hc.destination, hdots⟩
    exact List.ne_nil_of_mem
      (List.mem_filter.mpr ⟨hmem, decide_eq_true ⟨hc.server, hhost, hc.low, hc.high⟩⟩)

theorem refused_covers (h : t.ForPort serverId port saved) (haddr : hostValid A port.address)
    (hsaved : ∀ other ∈ saved, ∃ ps, other.pairs A = .ok ps) :
    t.Refused A saved ↔ ∃ other ∈ saved, L.Covers serverId port other := by
  rw [Tunnel.refused_iff h haddr hsaved]
  constructor
  · rintro ⟨other, hmem, hover⟩
    obtain ⟨ps, hps⟩ := hsaved other hmem
    exact ⟨other, hmem, (L.remoteOverlap_iff h haddr (Tunnel.pairs_ok hps).1.host).mp hover⟩
  · rintro ⟨other, hmem, hc⟩
    obtain ⟨ps, hps⟩ := hsaved other hmem
    exact ⟨other, hmem, (L.remoteOverlap_iff h haddr (Tunnel.pairs_ok hps).1.host).mpr hc⟩

/-- The two sides agree on two hosts unless these lead to one place and differ in the dots they
    end in. They agree on a port unless every tunnel that leads to it is one of those. -/
theorem forwarded_agree :
    (∀ a b : String, hostValid A a → hostValid A b →
      ((Frontend.forwardingHost L.url a = Frontend.forwardingHost L.url b ↔
          forwardingHost A a = forwardingHost A b) ↔
        (L.destination a = L.destination b → SameDots a b))) ∧
    ∀ (saved : List Tunnel) (serverId : Uuid) (port : DiscoveredPort) (t : Tunnel),
      (∀ other ∈ saved, ∃ ps, other.pairs A = .ok ps) → hostValid A port.address →
      t.ForPort serverId port saved →
      ((Frontend.forwardsForPort L.url saved serverId port ≠ [] ↔ t.Refused A saved) ↔
        ((∃ other ∈ saved, L.Covers serverId port other) →
          ∃ other ∈ saved, L.Covers serverId port other ∧
            SameDots other.remoteHost port.address)) := by
  constructor
  · intro a b ha hb
    rw [L.frontend_iff ha hb, L.backend_iff ha hb]
    constructor
    · exact fun hiff hdest => (hiff.mpr hdest).2
    · exact fun hdots => ⟨fun h => h.1, fun hdest => ⟨hdest, hdots hdest⟩⟩
  · intro saved serverId port t hsaved haddr ht
    have hhosts : ∀ other ∈ saved, hostValid A other.remoteHost := by
      intro other hmem
      obtain ⟨ps, hps⟩ := hsaved other hmem
      exact (Tunnel.pairs_ok hps).1.host
    rw [L.forwards_ne_nil haddr hhosts, L.refused_covers ht haddr hsaved]
    constructor
    · exact fun hiff => hiff.mpr
    · intro hdots
      refine ⟨fun h => ?_, hdots⟩
      obtain ⟨other, hmem, hc, -⟩ := h
      exact ⟨other, hmem, hc⟩

end Literals

/-! ## Two addresses -/

/-- The literals of the unspecified address and of the loopback. -/
def shortValue (s : String) : Option (BitVec 128) :=
  if s = "::" then some 0 else if s = "::1" then some 1 else none

def shortPrint (a : BitVec 128) : String := String.ofList (':' :: ':' :: List.replicate a.toNat '1')

def shortAddresses : Addresses where
  isV6 s := (shortValue s).isSome
  normal s := match shortValue s with
    | some a => some (shortPrint a)
    | none => if s ∈ ["0.0.0.0", "127.0.0.1"] then some s else none

theorem toLower_eq_signs {s t : String}
    (h : (t.toList.all fun d => d.val.toNat < 65) = true) : s.toLower = t ↔ s = t := by
  have hmap : ∀ l m : List Char, (∀ d ∈ m, d.val.toNat < 65) →
      (l.map Char.toLower = m ↔ l = m) := by
    intro l
    induction l with
    | nil => exact fun m _ => Iff.rfl
    | cons c l ih =>
      intro m hm
      cases m with
      | nil => simp
      | cons d m =>
        rw [List.map_cons, List.cons.injEq, List.cons.injEq,
          toLower_eq_sign (hm d List.mem_cons_self),
          ih m fun e he => hm e (List.mem_cons_of_mem d he)]
  rw [← String.toList_inj, ← String.toList_inj,
    show s.toLower.toList = s.toList.map Char.toLower from String.toList_map]
  exact hmap s.toList t.toList fun d hd => of_decide_eq_true (List.all_eq_true.mp h d hd)

theorem shortValue_some {s : String} {a : BitVec 128} (h : shortValue s = some a) :
    s = "::" ∧ a = 0 ∨ s = "::1" ∧ a = 1 := by
  rw [shortValue] at h
  split at h
  · next hs => exact Or.inl ⟨hs, (Option.some.inj h).symm⟩
  · split at h
    · next hs => exact Or.inr ⟨hs, (Option.some.inj h).symm⟩
    · cases h

theorem shortValue_colon {s : String} {a : BitVec 128} (h : shortValue s = some a) :
    ':' ∈ s.toList := by
  rcases shortValue_some h with ⟨rfl, -⟩ | ⟨rfl, -⟩
  · decide
  · decide

theorem shortPrint_colon (a : BitVec 128) : ':' ∈ (shortPrint a).toList := by
  rw [shortPrint, String.toList_ofList]
  exact List.mem_cons_self

theorem shortPrint_injective : Function.Injective shortPrint := by
  intro a b h
  have hlength := congrArg (fun s : String => s.toList.length) h
  simp only [shortPrint, String.toList_ofList, List.length_cons, List.length_replicate] at hlength
  exact BitVec.eq_of_toNat_eq (by omega)

def shortLiterals : Literals shortAddresses where
  value := shortValue
  print := shortPrint
  url s := (shortValue s).map shortPrint
  hostname := shortPrint
  isV6_eq _ := rfl
  normal_eq s a h := by
    show (match shortValue s with
      | some a => some (shortPrint a)
      | none => if s ∈ ["0.0.0.0", "127.0.0.1"] then some s else none) = _
    rw [h]
  normal_plain s n hcolon h := by
    change (match shortValue s with
      | some a => some (shortPrint a)
      | none => if s ∈ ["0.0.0.0", "127.0.0.1"] then some s else none) = some n at h
    cases hv : shortValue s with
    | some a => exact absurd (shortValue_colon hv) hcolon
    | none =>
      rw [hv] at h
      change (if s ∈ ["0.0.0.0", "127.0.0.1"] then some s else none) = some n at h
      split at h
      · exact (Option.some.inj h).symm
      · cases h
  url_eq s a h := by rw [h, Option.map_some]
  value_toLower s := by
    have hzero : s.toLower = "::" ↔ s = "::" := toLower_eq_signs (by decide)
    have hone : s.toLower = "::1" ↔ s = "::1" := toLower_eq_signs (by decide)
    rw [shortValue, shortValue]
    simp only [hzero, hone]
  value_colon s a h := shortValue_colon h
  value_end s a h := by
    rcases shortValue_some h with ⟨rfl, -⟩ | ⟨rfl, -⟩
    · decide
    · decide
  print_colon := shortPrint_colon
  print_injective := shortPrint_injective
  print_zero := rfl
  print_one := rfl
  hostname_colon := shortPrint_colon
  hostname_injective := shortPrint_injective
  hostname_zero := rfl
  hostname_one := rfl

theorem hostName_eq {a b : String}
    (h : (a.toList.map Char.toLower).rdropWhile (· = '.') =
      (b.toList.map Char.toLower).rdropWhile (· = '.')) : hostName a = hostName b := by
  apply String.ext
  rw [toList_hostName, toList_hostName]
  simpa only [show ∀ s : String, s.toLower.toList = s.toList.map Char.toLower from
    fun s => String.toList_map] using h

/-- A range of ports on the host, saved before. -/
def rangeTo (host : String) : Tunnel :=
  ⟨1, "db", 7, 15432, some 15440, host, 5432, some 5440, false, false⟩

def portTo (host : String) : Tunnel := ⟨2, "db", 7, 9000, none, host, 5433, none, false, false⟩

theorem covers_range {host address : String} (h : hostName host = hostName address) :
    shortLiterals.Covers 7 ⟨5433, address⟩ (rangeTo host) :=
  ⟨rfl, congrArg shortLiterals.destinationOf h, (by decide : (5432 : UInt16) ≤ 5433),
    (by decide : (5433 : UInt16) ≤ 5440)⟩

theorem portTo_forPort (host address : String) :
    (portTo address).ForPort 7 ⟨5433, address⟩ [rangeTo host] := by
  refine ⟨rfl, rfl, rfl, rfl, (by decide : (9000 : UInt16) ≠ 0), rfl, ?_, ?_⟩
  · intro other hmem
    obtain rfl := List.mem_singleton.mp hmem
    exact (by decide : (1 : Uuid) ≠ 2)
  · intro other hmem
    obtain rfl := List.mem_singleton.mp hmem
    rfl

theorem pairs_range {host : String} (h : hostValid shortAddresses host) :
    ∀ other ∈ [rangeTo host], ∃ ps, other.pairs shortAddresses = .ok ps := by
  intro other hmem
  obtain rfl := List.mem_singleton.mp hmem
  refine ⟨(rangeTo host).localPorts.zip (rangeTo host).remotePorts, ?_⟩
  rw [Tunnel.pairs, if_neg, if_neg, if_neg, if_neg]
  · simpa [rangeTo] using h
  · exact (by decide : ¬(15440 : UInt16) - 15432 ≥ 256)
  · exact (by decide : ¬(15440 : UInt16) - 15432 ≠ 5440 - 5432)
  · exact (by decide : ¬((15432 : UInt16) = 0 ∨ (5432 : UInt16) = 0 ∨ (15440 : UInt16) < 15432 ∨
      (5440 : UInt16) < 5432))

/-- A port in the middle of a range to the same name with one dot. -/
theorem forwarded_range :
    Frontend.forwardsForPort shortLiterals.url [rangeTo "Db.Example."] 7 ⟨5433, "db.example"⟩ ≠ [] ∧
      (portTo "db.example").Refused shortAddresses [rangeTo "Db.Example."] := by
  have hname : hostName "Db.Example." = hostName "db.example" := hostName_eq (by decide)
  have hdots : SameDots "Db.Example." "db.example" := ⟨rfl, Or.inl rfl⟩
  have hmem : rangeTo "Db.Example." ∈ [rangeTo "Db.Example."] := List.mem_singleton.mpr rfl
  have hcovers := covers_range hname
  have hagree := (shortLiterals.forwarded_agree.2 [rangeTo "Db.Example."] 7 ⟨5433, "db.example"⟩
    (portTo "db.example") (pairs_range (by decide)) (by decide) (portTo_forPort _ _)).mpr
    fun _ => ⟨_, hmem, hcovers, hdots⟩
  have hrefused := (shortLiterals.refused_covers (portTo_forPort "Db.Example." "db.example")
    (by decide) (pairs_range (by decide))).mpr ⟨_, hmem, hcovers⟩
  exact ⟨hagree.mpr hrefused, hrefused⟩

/-- A tunnel to a name with two dots is not shown at the port, and yet another one is refused. -/
theorem forwarded_twoDots :
    hostValid shortAddresses "db.." = true ∧ hostValid shortAddresses "db" = true ∧
      forwardingHost shortAddresses "db.." = forwardingHost shortAddresses "db" ∧
      Frontend.forwardingHost shortLiterals.url "db.." ≠
        Frontend.forwardingHost shortLiterals.url "db" ∧
      Frontend.forwardsForPort shortLiterals.url [rangeTo "db.."] 7 ⟨5433, "db"⟩ = [] ∧
      (portTo "db").Refused shortAddresses [rangeTo "db.."] := by
  have hname : hostName "db.." = hostName "db" := hostName_eq (by decide)
  have hdots : ¬SameDots "db.." "db" := fun h => absurd h.1 (by decide)
  have hsaved := pairs_range (show hostValid shortAddresses "db.." by decide)
  refine ⟨by decide, by decide, ?_, ?_, ?_, ?_⟩
  · exact (shortLiterals.backend_iff (by decide) (by decide)).mpr
      (congrArg shortLiterals.destinationOf hname)
  · intro h
    exact hdots ((shortLiterals.frontend_iff (by decide) (by decide)).mp h).2
  · by_contra hne
    have hhosts : ∀ other ∈ [rangeTo "db.."], hostValid shortAddresses other.remoteHost := by
      decide
    obtain ⟨other, hmem, -, hsame⟩ := (shortLiterals.forwards_ne_nil (by decide) hhosts).mp hne
    obtain rfl := List.mem_singleton.mp hmem
    exact hdots hsame
  · exact (shortLiterals.refused_covers (portTo_forPort "db.." "db") (by decide) hsaved).mpr
      ⟨_, List.mem_singleton.mpr rfl, covers_range hname⟩

end Porthop.Profile
