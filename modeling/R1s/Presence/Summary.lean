/-
What the presence round trip keeps. The metadata an allocator announces
is always read back, with the capacity and the three scalars it was made
of (`parse_metadata`); labels, devices and the image cache are not part
of it.

So the client's filter judges a node by its os, arch and runtime alone,
and skips a node it was told nothing about only when the constraints ask
for more than these.
-/
import R1s.Presence.Descriptor
import R1s.Lib.Loop

namespace R1s.Presence

open Form (formatNat parseNat_formatNat)

-- ===== the fields

variable {m : Metadata} {key other : String} {value : GoString}

theorem get_insert (m : Metadata) (key : String) (value : GoString) :
    Metadata.get (m.insert (text key) value) key = value := by
  rw [Metadata.get, AList.lookup_insert]
  rfl

theorem get_insert_ne (h : text other ≠ text key) :
    Metadata.get (m.insert (text key) value) other = m.get other := by
  rw [Metadata.get, AList.lookup_insert_ne h]
  rfl

/-- A field put where there was none. -/
theorem get_put (h : m.get key = []) : (m.put key value).get key = value := by
  unfold Metadata.put
  split
  next hempty => rw [h, hempty]
  · exact get_insert m key value

theorem get_put_ne (h : text other ≠ text key) : (m.put key value).get other = m.get other := by
  unfold Metadata.put
  split
  · rfl
  · exact get_insert_ne h

/-- The fields a descriptor is announced with. -/
structure Announces (d : Descriptor) (m : Metadata) : Prop where
  capacity : m.get "c" = Form.encode (capacityPairs d.capacity)
  os : m.get "o" = d.os
  arch : m.get "a" = d.arch
  runtime : m.get "r" = d.runtime
  host : m.get "h" = d.tunnelHost
  destination : m.get "d" = d.tunnelDestination
  port : m.get "p" = if 0 < d.tunnelPort then itoa d.tunnelPort else []

/-- The fields before the port is added. -/
theorem get_insertPort (d : Descriptor) (m : Metadata) (h : text other ≠ text "p") :
    Metadata.get (if 0 < d.tunnelPort then m.insert (text "p") (itoa d.tunnelPort) else m) other =
      m.get other := by
  split
  · exact get_insert_ne h
  · rfl

theorem announces_metadata (d : Descriptor) : Announces d d.metadata := by
  -- Every key differs from the others, so each field reads back alone.
  have hempty (k : String) : Metadata.get (∅ : Metadata) k = [] := rfl
  constructor <;> unfold Descriptor.metadata <;> dsimp only
  case port =>
    split
    · exact get_insert _ _ _
    · simp (disch := decide +kernel) only [get_put_ne, get_insert_ne, hempty]
  all_goals rw [get_insertPort d _ (by decide +kernel)]
  case capacity =>
    simp (disch := decide +kernel) only [get_put_ne]
    exact get_insert _ _ _
  case' os | arch | runtime | host => simp (disch := decide +kernel) only [get_put_ne]
  all_goals
    refine get_put ?_
    simp (disch := decide +kernel) only [get_put_ne, get_insert_ne, hempty]

-- ===== the capacity

theorem formatNat_inj {a b : Nat} (h : formatNat a = formatNat b) : a = b := by
  have ha := parseNat_formatNat a
  rw [h, parseNat_formatNat] at ha
  exact (Option.some.inj ha).symm

theorem parseSlots_formatNat {n : Nat} (h : n < 2 ^ 32) :
    parseSlots (formatNat n) = some n := by
  rw [parseSlots, parseNat_formatNat, Option.filter_some, if_pos (by simpa using h)]

variable {capacity : FMap GoString Nat}

theorem mem_capacityPairs {pair : Form.Pair} :
    pair ∈ capacityPairs capacity ↔
      ∃ slots, capacity.lookup pair.1 = some slots ∧ pair.2 = formatNat slots := by
  rw [capacityPairs, List.mem_insertionSort, List.mem_map]
  constructor
  · rintro ⟨e, he, rfl⟩
    exact ⟨e.2, AList.mem_entries.mp he, rfl⟩
  · rintro ⟨slots, hslots, heq⟩
    exact ⟨⟨pair.1, slots⟩, AList.mem_entries.mpr hslots, Prod.ext rfl heq.symm⟩

theorem nodup_capacityPairs (capacity : FMap GoString Nat) :
    ((capacityPairs capacity).map Prod.fst).Nodup := by
  have hperm := (List.perm_insertionSort (fun a b : Form.Pair => ¬b.1 < a.1)
    (capacity.entries.map fun e => (e.1, formatNat e.2))).map Prod.fst
  refine hperm.nodup_iff.mpr ?_
  rw [List.map_map]
  exact capacity.nodupKeys

/-- Of a list without repeated keys each key is found once. -/
theorem length_filter_key {pairs done rest : List Form.Pair} {pair : Form.Pair}
    (hpairs : pairs = done ++ pair :: rest) (hnodup : (pairs.map Prod.fst).Nodup) :
    (∀ p ∈ done, p.1 ≠ pair.1) ∧ (pairs.filter fun p => p.1 = pair.1).length = 1 := by
  rw [hpairs, List.map_append, List.map_cons, List.nodup_middle, List.nodup_cons,
    List.mem_append, not_or] at hnodup
  obtain ⟨⟨hdone, hrest⟩, -⟩ := hnodup
  have hdone : ∀ p ∈ done, p.1 ≠ pair.1 := fun p hp heq => hdone (List.mem_map.mpr ⟨p, hp, heq⟩)
  have hrest : ∀ p ∈ rest, p.1 ≠ pair.1 := fun p hp heq => hrest (List.mem_map.mpr ⟨p, hp, heq⟩)
  refine ⟨hdone, ?_⟩
  rw [hpairs, List.filter_append, List.filter_cons_of_pos (by simp),
    List.filter_eq_nil_iff.mpr (by simpa using hdone),
    List.filter_eq_nil_iff.mpr (by simpa using hrest)]
  rfl

/-- Every class is read back as it was written. -/
theorem readClasses (capacity : FMap GoString Nat)
    (hslots : ∀ {k slots}, capacity.lookup k = some slots → slots ≠ 0 ∧ slots < 2 ^ 32) :
    ∃ read, (capacityPairs capacity).foldlM (readClass (capacityPairs capacity)) ∅ = .ok read ∧
      ∀ k, read.lookup k = capacity.lookup k := by
  -- What has been read is what the pairs visited so far say.
  obtain ⟨read, hread, hsame⟩ := Loop.foldlM_exists
    (fun done (m : FMap GoString Nat) => ∀ k slots,
      m.lookup k = some slots ↔ (k, formatNat slots) ∈ done)
    (l := capacityPairs capacity) (f := readClass (capacityPairs capacity)) (b := ∅)
    (by
      intro k slots
      exact iff_of_false (nomatch ·) (nomatch ·))
    (by
      intro done pair rest m hpairs hI
      obtain ⟨hnew, honce⟩ := length_filter_key hpairs (nodup_capacityPairs capacity)
      have hmem : pair ∈ capacityPairs capacity := by
        rw [hpairs]
        exact List.mem_append_right _ List.mem_cons_self
      obtain ⟨slots, hlookup, htext⟩ := mem_capacityPairs.mp hmem
      obtain ⟨hpos, hlt⟩ := hslots hlookup
      refine ⟨m.insert pair.1 slots, ?_, ?_⟩
      · rw [readClass, if_neg (not_not.mpr honce), htext, parseSlots_formatNat hlt]
        exact if_neg hpos
      · intro k n
        rw [AList.lookup_insert_if, List.mem_append, List.mem_singleton]
        split
        next heq =>
          subst heq
          constructor
          · intro h
            cases h
            exact .inr (Prod.ext rfl htext.symm)
          · rintro (hdone | hpair)
            · exact absurd rfl (hnew (pair.1, formatNat n) hdone)
            · rw [formatNat_inj ((congrArg Prod.snd hpair).trans htext)]
        rename_i hne
        rw [hI k n]
        constructor
        · exact .inl
        · rintro (hdone | hpair)
          · exact hdone
          · exact absurd (congrArg Prod.fst hpair) hne)
  refine ⟨read, hread, fun k => Option.ext fun slots => ?_⟩
  rw [hsame k slots, mem_capacityPairs]
  constructor
  · rintro ⟨n, hn, htext⟩
    rw [formatNat_inj htext]
    exact hn
  · intro h
    exact ⟨slots, h, rfl⟩

-- ===== the tunnel

theorem formatNat_ne_nil (n : Nat) : formatNat n ≠ [] := by
  intro h
  have hparse := parseNat_formatNat n
  rw [h] at hparse
  cases hparse

/-- A numeral starts with a digit. -/
theorem formatNat_head {n : Nat} {b : UInt8} {rest : GoString} (h : formatNat n = b :: rest) :
    b ≠ 0x2D ∧ b ≠ 0x2B := by
  have hparse := parseNat_formatNat n
  rw [h, Form.parseNat] at hparse
  split at hparse
  · cases hparse
  next hdigits =>
    simp only [List.all_cons, Bool.or_eq_true, not_or, Bool.not_eq_true', Bool.not_eq_false,
      Bool.and_eq_true] at hdigits
    constructor <;> (rintro rfl; exact absurd hdigits.2.1.1 (by decide))

theorem atoi_itoa {port : Int} (hpos : 0 < port) (hlt : port ≤ 65535) :
    atoi (itoa port) = some port := by
  obtain ⟨n, rfl⟩ := Int.eq_ofNat_of_zero_le hpos.le
  have hn : n < 2 ^ 63 := by omega
  have hread : ((Form.parseNat (formatNat n)).filter (· < 2 ^ 63)).map Int.ofNat =
      some (n : Int) := by
    rw [parseNat_formatNat, Option.filter_some, if_pos (by simpa using hn)]
    rfl
  rw [itoa, if_neg (by omega), Int.natAbs_natCast]
  generalize hs : formatNat n = s at hread
  cases s with
  | nil => exact absurd hs (formatNat_ne_nil n)
  | cons b rest =>
    obtain ⟨hminus, hplus⟩ := formatNat_head hs
    rw [atoi.eq_def]
    split
    next heq => exact absurd (List.cons.inj heq).1 hminus
    next heq => exact absurd (List.cons.inj heq).1 hplus
    · exact hread

variable {addresses : Addresses} {d : Descriptor}

/-- The tunnel fields of a descriptor: all unset, or a port with a host. -/
def Descriptor.Tunnelled (d : Descriptor) : Prop :=
  d.tunnelPort = 0 ∧ d.tunnelHost = [] ∧ d.tunnelDestination = [] ∨
    1 ≤ d.tunnelPort ∧ d.tunnelPort ≤ 65535 ∧ blank d.tunnelHost = false

variable {tunnel : Option TunnelAdvertisement}

theorem withTunnel_ok {base : Descriptor}
    (hbase : base.tunnelPort = 0 ∧ base.tunnelHost = [] ∧ base.tunnelDestination = [])
    (h : withTunnel addresses base tunnel = .ok d) :
    d.Tunnelled ∧ d.capacity = base.capacity ∧ d.os = base.os ∧ d.arch = base.arch ∧
      d.runtime = base.runtime := by
  unfold withTunnel at h
  split at h
  · cases h
    exact ⟨.inl hbase, rfl, rfl, rfl, rfl⟩
  rename_i tunnel
  split at h
  · cases h
    exact ⟨.inl hbase, rfl, rfl, rfl, rfl⟩
  split at h
  · cases h
  rename_i hgood
  cases h
  simp only [not_or, not_lt, Bool.not_eq_true] at hgood
  obtain ⟨hlow, hhigh, hhost⟩ := hgood
  refine ⟨.inr ⟨hlow, hhigh, ?_⟩, rfl, rfl, rfl, rfl⟩
  cases hcanonical : addresses.canonical tunnel.host with
  | none => exact hhost
  | some address => exact addresses.nonblank hcanonical

variable {node : Option NodeCapabilities}

/-- The host of a descriptor is an address in its canonical text, or none. -/
theorem host_of_newDescriptor
    (h : newDescriptor addresses capacity node tunnel = .ok d) :
    d.tunnelPort = 0 ∨ ∃ host, d.tunnelHost = (addresses.canonical host).getD host := by
  unfold newDescriptor withTunnel at h
  repeat' split at h
  all_goals cases h
  · exact .inl rfl
  · exact .inl rfl
  · exact .inr ⟨_, rfl⟩

/-- What is read back of the tunnel fields of a descriptor. -/
def Descriptor.withHost (addresses : Addresses) (d : Descriptor) : Descriptor :=
  if d.tunnelPort = 0 then d
  else { d with tunnelHost := (addresses.canonical d.tunnelHost).getD d.tunnelHost }

/-- The tunnel fields are taken when they are read back. -/
theorem withTunnel_readTunnel (addresses : Addresses) {m : Metadata} (hm : Announces d m)
    (htunnel : d.Tunnelled) (read : FMap GoString Nat) :
    ∃ tunnel, readTunnel m = .ok tunnel ∧
      withTunnel addresses { capacity := read, os := d.os, arch := d.arch, runtime := d.runtime }
        tunnel = .ok { d.withHost addresses with capacity := read } := by
  unfold readTunnel Descriptor.withHost
  rw [hm.port, hm.host, hm.destination]
  rcases htunnel with ⟨hport, hhost, hdestination⟩ | ⟨hlow, hhigh, hhost⟩
  · refine ⟨none, ?_, ?_⟩
    · rw [hport, hhost, hdestination]
      rfl
    · rw [if_pos hport]
      simp [withTunnel, hport, hhost, hdestination]
  · have hpos : 0 < d.tunnelPort := by omega
    have hne : itoa d.tunnelPort ≠ [] := by
      rw [itoa, if_neg (by omega)]
      exact formatNat_ne_nil _
    have hgood : ¬(d.tunnelPort < 1 ∨ 65535 < d.tunnelPort ∨ blank d.tunnelHost = true) := by
      rw [hhost]
      simp
      omega
    rw [if_pos hpos, if_pos hne, atoi_itoa hpos hhigh, if_neg (by omega)]
    refine ⟨_, rfl, ?_⟩
    rw [withTunnel, if_neg (by simp only; omega), if_neg hgood]

-- ===== the round trip

/-- What an accepted description says. -/
theorem newDescriptor_ok
    (h : newDescriptor addresses capacity node tunnel = .ok d) :
    (∀ {k slots}, capacity.lookup k = some slots → blank k = false ∧ slots ≠ 0) ∧
      capacity.entries ≠ [] ∧ d.Tunnelled ∧ d.capacity = capacity ∧
      d.os = (node.map NodeCapabilities.os).getD [] ∧
      d.arch = (node.map NodeCapabilities.arch).getD [] ∧
      d.runtime = (node.map NodeCapabilities.runtime).getD [] := by
  unfold newDescriptor at h
  split at h
  · cases h
  rename_i hentries
  split at h
  · cases h
  rename_i hne
  obtain ⟨htunnel, hcapacity, hscalars⟩ := withTunnel_ok ⟨rfl, rfl, rfl⟩ h
  refine ⟨?_, hne, htunnel, hcapacity, hscalars⟩
  intro k slots hk
  have hentry := mt (fun h => List.any_eq_true.mpr ⟨⟨k, slots⟩, AList.mem_entries.mpr hk, h⟩)
    hentries
  simpa using hentry

/-- Presence that was announced is read back, with the same capacity and
the same scalars. -/
theorem parse_metadata {capacity : Capacity}
    (h : newDescriptor addresses capacity.1 node tunnel = .ok d) :
    ∃ read, parseDescriptorMetadata addresses d.metadata
        = .ok { d.withHost addresses with capacity := read } ∧
      ∀ k, read.lookup k = d.capacity.lookup k := by
  have hm := announces_metadata d
  obtain ⟨hclasses, hne, htunnel, hcapacity, -⟩ := newDescriptor_ok h
  obtain ⟨read, hread, hsame⟩ := readClasses capacity.1 fun hk =>
    ⟨(hclasses hk).2, capacity.2 _ (AList.mem_entries.mpr hk)⟩
  obtain ⟨tunnel', htunnel', hd'⟩ := withTunnel_readTunnel addresses hm htunnel read
  obtain ⟨e, rest, he⟩ := List.exists_cons_of_ne_nil hne
  have hlookup := AList.mem_entries.mp (he ▸ List.mem_cons_self : e ∈ capacity.1.entries)
  -- An empty text would decode to no class at all.
  have hfield : Form.encode (capacityPairs capacity.1) ≠ [] := by
    intro hempty
    have hdecode := Form.decode_encode (capacityPairs capacity.1)
    rw [hempty] at hdecode
    have hmem : (e.1, formatNat e.2) ∈ capacityPairs capacity.1 :=
      mem_capacityPairs.mpr ⟨e.2, hlookup, rfl⟩
    rw [← Option.some.inj hdecode] at hmem
    cases hmem
  have hnew : newDescriptor addresses read (some (scalarNode d.os d.arch d.runtime)) tunnel' =
      .ok { d.withHost addresses with capacity := read } := by
    rw [newDescriptor, if_neg, if_neg]
    · exact hd'
    · intro hempty
      rw [← hsame, ← AList.mem_entries, hempty] at hlookup
      cases hlookup
    · intro hany
      obtain ⟨e, he, hbad⟩ := List.any_eq_true.mp hany
      have hlookup := AList.mem_entries.mp he
      rw [hsame] at hlookup
      obtain ⟨hblank, hzero⟩ := hclasses hlookup
      simp [hblank, hzero] at hbad
  refine ⟨read, ?_, fun k => hcapacity ▸ hsame k⟩
  unfold parseDescriptorMetadata
  rw [hm.capacity, hcapacity, Form.decode_encode, hm.os, hm.arch, hm.runtime]
  dsimp only
  rw [if_neg hfield, hread, htunnel']
  exact hnew

/-- The scalars do not depend on the host. -/
theorem summary_withHost (addresses : Addresses) (d : Descriptor) (read : FMap GoString Nat) :
    Descriptor.summary { d.withHost addresses with capacity := read } = d.summary := by
  unfold Descriptor.withHost
  split <;> rfl

/-- A descriptor is read back from its metadata as it was built, its
capacity being the slots found for each class. -/
theorem descriptor_round_trip (addresses : Addresses)
    (hprint : ∀ host address, addresses.canonical host = some address →
      addresses.canonical address = some address)
    (capacity : Capacity) (node : Option NodeCapabilities) (tunnel : Option TunnelAdvertisement)
    (d : Descriptor) (hd : newDescriptor addresses capacity.1 node tunnel = .ok d) :
    ∃ read, parseDescriptorMetadata addresses d.metadata = .ok { d with capacity := read } ∧
      ∀ k, read.lookup k = d.capacity.lookup k := by
  obtain ⟨read, hparse, hsame⟩ := parse_metadata hd
  have hhost : d.withHost addresses = d := by
    unfold Descriptor.withHost
    split
    · rfl
    rename_i hport
    obtain hzero | ⟨host, hhost⟩ := host_of_newDescriptor hd
    · exact absurd hzero hport
    cases hcanonical : addresses.canonical host with
    | none =>
      rw [hcanonical, Option.getD_none] at hhost
      rw [hhost, hcanonical, Option.getD_none, ← hhost]
    | some address =>
      rw [hcanonical, Option.getD_some] at hhost
      rw [hhost, hprint host address hcanonical, Option.getD_some, ← hhost]
  rw [hhost] at hparse
  exact ⟨read, hparse, hsame⟩

-- ===== the filter

/-- The node names no os, no arch and no runtime. -/
def Nameless (n : NodeCapabilities) : Prop := n.os = [] ∧ n.arch = [] ∧ n.runtime = []

/-- The constraints ask for no device and for no label with a value. -/
def ScalarOnly (c : PlacementConstraints) : Prop :=
  c.devices = [] ∧ ∀ label ∈ c.labels.entries, label.2 = []

/-- A node of scalars alone meets what asks for nothing else. -/
theorem placementMatches_scalarNode {c : PlacementConstraints} {n : NodeCapabilities}
    (hmatch : placementMatches (some c) (some n) = true) :
    placementMatches (some c) (some (scalarNode n.os n.arch n.runtime)) = true ↔
      ScalarOnly c := by
  simp only [placementMatches, Bool.and_eq_true] at hmatch ⊢
  obtain ⟨⟨hscalars, -⟩, -⟩ := hmatch
  constructor
  · rintro ⟨⟨-, hlabels⟩, hdevices⟩
    refine ⟨?_, ?_⟩
    · -- A required device is none of the summary's.
      rw [List.eq_nil_iff_forall_not_mem]
      intro device hdevice
      exact absurd (List.all_eq_true.mp hdevices device hdevice) (by simp [scalarNode])
    · intro label hlabel
      have hget := of_decide_eq_true (List.all_eq_true.mp hlabels label hlabel)
      exact hget.symm
  · rintro ⟨hdevices, hlabels⟩
    refine ⟨⟨hscalars, ?_⟩, ?_⟩
    · refine List.all_eq_true.mpr fun label hlabel => decide_eq_true ?_
      exact (hlabels label hlabel).symm
    · rw [hdevices]
      rfl

/-- The filter on the summary of a node the allocator's own check
accepts. -/
theorem placementCompatible_summaryNode {c : PlacementConstraints} {n : NodeCapabilities}
    (hmatch : placementMatches (some c) (some n) = true) :
    placementCompatible (some c) (summaryNode n.os n.arch n.runtime) = true ↔
      Nameless n ∨ ScalarOnly c := by
  unfold placementCompatible summaryNode
  dsimp only
  split
  next hempty =>
    -- Empty constraints ask for nothing.
    refine iff_of_true rfl (.inr ⟨List.eq_nil_of_length_eq_zero (by omega), ?_⟩)
    rw [List.eq_nil_of_length_eq_zero (l := c.labels.entries) (by omega)]
    exact fun label h => (nomatch h)
  by_cases hnameless : n.os = [] ∧ n.arch = [] ∧ n.runtime = []
  · rw [if_pos hnameless, if_pos rfl]
    exact iff_of_true rfl (.inl hnameless)
  · rw [if_neg hnameless, if_neg (Option.some_ne_none _), placementMatches_scalarNode hmatch]
    constructor
    · exact .inr
    · rintro (hname | hscalar)
      · exact absurd hname hnameless
      · exact hscalar

/-- The client's filter accepts the summary it read of a node that the
allocator's own check accepts exactly when the node names no os, arch and
runtime, or the constraints ask for nothing else. -/
theorem summary_compatible_iff (addresses : Addresses) (capacity : Capacity)
    (tunnel : Option TunnelAdvertisement) (constraints : Option PlacementConstraints)
    (node : Option NodeCapabilities) (d : Descriptor)
    (hd : newDescriptor addresses capacity.1 node tunnel = .ok d)
    (hmatch : placementMatches constraints node = true) :
    ∃ d', parseDescriptorMetadata addresses d.metadata = .ok d' ∧
      (placementCompatible constraints d'.summary = true ↔
        ∀ c n, constraints = some c → node = some n → Nameless n ∨ ScalarOnly c) := by
  obtain ⟨read, hparse, -⟩ := parse_metadata hd
  obtain ⟨-, -, -, -, hnode⟩ := newDescriptor_ok hd
  refine ⟨_, hparse, ?_⟩
  rw [summary_withHost, Descriptor.summary, hnode.1, hnode.2.1, hnode.2.2]
  cases constraints with
  | none => exact iff_of_true rfl fun c n hc => (nomatch hc)
  | some c =>
    cases node with
    | none => cases hmatch
    | some n =>
      refine (placementCompatible_summaryNode hmatch).trans ⟨?_, fun h => h c n rfl rfl⟩
      rintro h c' n' hc hn
      cases hc
      cases hn
      exact h

-- ===== a node

/-- No host is an IP address. -/
def noAddresses : Addresses := ⟨fun _ => none, nofun⟩

def oneSlot : Capacity := ⟨(∅ : FMap GoString Nat).insert (text "default") 1, by decide +kernel⟩

def gpuNode : NodeCapabilities :=
  { scalarNode (text "linux") (text "amd64") (text "containerd") with devices := [text "gpu"] }

def gpuDescriptor : Descriptor :=
  { capacity := oneSlot.1, os := text "linux", arch := text "amd64",
    runtime := text "containerd" }

/-- The summary of a node with a device is the node without it. -/
theorem summary_gpuNode :
    newDescriptor noAddresses oneSlot.1 (some gpuNode) none = .ok gpuDescriptor ∧
      ∃ d', parseDescriptorMetadata noAddresses gpuDescriptor.metadata = .ok d' ∧
        d'.summary = some (scalarNode (text "linux") (text "amd64") (text "containerd")) := by
  have hd : newDescriptor noAddresses oneSlot.1 (some gpuNode) none = .ok gpuDescriptor := by rfl
  obtain ⟨read, hparse, -⟩ := parse_metadata hd
  exact ⟨hd, _, hparse, rfl⟩

/-- One address, which has a longer form. -/
def loopback : Addresses where
  canonical host := if host = text "0:0::1" ∨ host = text "::1" then some (text "::1") else none
  nonblank h := by
    split at h
    · cases h
      decide
    · cases h

/-- The node's descriptor with a tunnel at that address. -/
def tunnelDescriptor : Descriptor :=
  { gpuDescriptor with
    tunnelHost := text "::1", tunnelPort := 4242, tunnelDestination := text "ab" }

/-- The descriptor of the node and its tunnel is read back. -/
theorem tunnelDescriptor_round_trip :
    newDescriptor loopback oneSlot.1 (some gpuNode) (some ⟨text "0:0::1", 4242, text "ab"⟩)
        = .ok tunnelDescriptor ∧
      ∃ read, parseDescriptorMetadata loopback tunnelDescriptor.metadata
          = .ok { tunnelDescriptor with capacity := read } ∧
        ∀ k, read.lookup k = tunnelDescriptor.capacity.lookup k := by
  have hprint : ∀ host address, loopback.canonical host = some address →
      loopback.canonical address = some address := by
    intro host address h
    simp only [loopback] at h
    split at h
    · cases h
      rfl
    · cases h
  have hd : newDescriptor loopback oneSlot.1 (some gpuNode)
      (some ⟨text "0:0::1", 4242, text "ab"⟩) = .ok tunnelDescriptor := by rfl
  exact ⟨hd, descriptor_round_trip loopback hprint oneSlot (some gpuNode) _ tunnelDescriptor hd⟩

def askDevice : PlacementConstraints := ⟨[], [], [], .empty, [text "gpu"]⟩

/-- A request for a device is withheld from the node that has it. -/
theorem device_request_is_withheld :
    validateCapabilities (some gpuNode) = none ∧ validateConstraints (some askDevice) = none ∧
      newDescriptor noAddresses oneSlot.1 (some gpuNode) none = .ok gpuDescriptor ∧
      placementMatches (some askDevice) (some gpuNode) = true ∧
      ∃ d', parseDescriptorMetadata noAddresses gpuDescriptor.metadata = .ok d' ∧
        placementCompatible (some askDevice) d'.summary = false := by
  obtain ⟨hd, d', hparse, hsummary⟩ := summary_gpuNode
  refine ⟨by decide +kernel, by decide +kernel, hd, by decide +kernel, d', hparse, ?_⟩
  rw [hsummary]
  decide +kernel

def askLinux : PlacementConstraints := ⟨text "linux", [], [], .empty, []⟩

/-- A request for the node's os is not. -/
theorem os_request_is_sent :
    ∃ d', parseDescriptorMetadata noAddresses gpuDescriptor.metadata = .ok d' ∧
      placementCompatible (some askLinux) d'.summary = true := by
  obtain ⟨d', hparse, hiff⟩ := summary_compatible_iff noAddresses oneSlot none (some askLinux)
    (some gpuNode) gpuDescriptor summary_gpuNode.1 (by decide +kernel)
  refine ⟨d', hparse, hiff.mpr ?_⟩
  rintro c n hc hn
  cases hc
  exact .inr ⟨rfl, fun label h => (nomatch h)⟩

end R1s.Presence
