import VPanel.Library.StructFormat
import VPanel.Proxy.Modules

/-!
# The test sender

`udpsender.py` keeps the fields of a packet in an ordered dictionary, lets the
user assign to them and packs the values in the order of the dictionary.  Its
tables and the packed states of the proxies describe the same datagrams.
-/

namespace VPanel.Proxy

open ByteCodec ObjectLayout StructFormat Wire

abbrev Fields := List (String × ℤ)

inductive PacketKey
  | pdp11 | amd64 | vax
  deriving DecidableEq

def PacketKey.udpPort : PacketKey → ℕ
  | .pdp11 => 4000
  | .amd64 => 4001
  | .vax => 4002

def PacketKey.fields : PacketKey → Fields
  | .pdp11 =>
      [("pp_byte_count", 16), ("pp_byte_flags", 1), ("ps_address", 0x15555), ("ps_data", 0xAAAA),
        ("ps_psw", 0x0200), ("ps_mser", 0x0001), ("ps_cpu_err", 0x0000), ("ps_mmr0", 0x7000),
        ("ps_mmr3", 0x0003)]
  | .amd64 =>
      [("pp_byte_count", 26 * 8), ("pp_byte_flags", 1), ("cf_rdi", 0), ("cf_rsi", 0),
        ("cf_rdx", 0), ("cf_rcx", 0), ("cf_r8", 0), ("cf_r9", 0), ("cf_r10", 0), ("cf_r11", 0),
        ("cf_r12", 0), ("cf_r13", 0), ("cf_r14", 0), ("cf_r15", 0), ("cf_rbp", 0), ("cf_rbx", 0),
        ("cf_rax", 0), ("cf_gs", 0), ("cf_fs", 0), ("cf_es", 0), ("cf_ds", 0), ("cf_trapno", 0),
        ("cf_err", 0), ("cf_rip", 0), ("cf_cs", 0), ("cf_rflags", 0), ("cf_rsp", 0), ("cf_ss", 0)]
  | .vax =>
      [("pp_byte_count", 8), ("pp_byte_flags", 1), ("ps_address", 0x1000), ("ps_data", 0x2000)]

theorem PacketKey.nodup_fields (key : PacketKey) : (key.fields.map Prod.fst).Nodup := by
  cases key <;> decide +kernel

def PacketKey.format : PacketKey → List Char
  | .pdp11 => "<HI I 6H".toList
  | .amd64 => "<HI".toList ++ List.replicate 26 'Q'
  | .vax => "<HI 2I".toList

/-- `build_packet`: an exception gives the empty packet. -/
def buildPacket (fields : Fields) (fmt : List Char) : List UInt8 :=
  (pack fmt (fields.map Prod.snd)).getD []

def setField (fields : Fields) (field : String) (v : ℤ) : Fields :=
  fields.map fun e ↦ if e.1 = field then (e.1, v) else e

section Commands

-- What `int(val, 0)` makes of the text behind a `set` command; `none` is its exception.
variable (parseValue : String → Option ℤ)

/-- `set <field> <value>`. -/
def runSet (fields : Fields) (cmd : String × String) : Fields :=
  if cmd.1 ∈ fields.map Prod.fst then
    match parseValue cmd.2 with
    | some v => setField fields cmd.1 v
    | none => fields
  else fields

def runSets (fields : Fields) (cmds : List (String × String)) : Fields :=
  cmds.foldl (runSet parseValue) fields

/-- What a list of `set` commands leaves of the value of one field. -/
def valueSet (cmds : List (String × String)) (name : String) (v : ℤ) : ℤ :=
  cmds.foldl (fun v cmd ↦ if cmd.1 = name then (parseValue cmd.2).getD v else v) v

theorem runSet_eq (fields : Fields) (cmd : String × String) :
    runSet parseValue fields cmd = fields.map fun e ↦ (e.1, valueSet parseValue [cmd] e.1 e.2) := by
  obtain ⟨field, val⟩ := cmd
  unfold runSet valueSet
  by_cases hfield : field ∈ fields.map Prod.fst
  · rw [if_pos hfield]
    cases hparse : parseValue val with
    | none => simp [hparse]
    | some v =>
        apply List.map_congr_left
        intro e _
        by_cases hkey : e.1 = field
        · simp [hkey, hparse]
        · simp [hkey, Ne.symm hkey]
  · rw [if_neg hfield]
    refine (List.map_id fields).symm.trans (List.map_congr_left fun e he ↦ ?_)
    have hne : field ≠ e.1 := fun h ↦ hfield (h ▸ List.mem_map_of_mem he)
    simp [hne]

theorem runSets_eq (fields : Fields) (cmds : List (String × String)) :
    runSets parseValue fields cmds = fields.map fun e ↦ (e.1, valueSet parseValue cmds e.1 e.2) := by
  induction cmds generalizing fields with
  | nil => exact (List.map_id fields).symm
  | cons cmd cmds ih =>
      have hstep : runSets parseValue fields (cmd :: cmds) =
          runSets parseValue (runSet parseValue fields cmd) cmds := rfl
      rw [hstep, ih, runSet_eq, List.map_map]
      rfl

end Commands

/-! ## Tables and states -/

/-- The table of a packet type describes the header and the state of a proxy. -/
structure Describes (key : PacketKey) (M : ProxyModule) : Prop where
  items_format : items key.format = some (2 :: 4 :: M.panelState.slots.map Slot.size)
  fields_eq : ∃ initial : M.Field → ℤ, key.fields =
    ("pp_byte_count", (M.panelState.size : ℤ)) :: ("pp_byte_flags", 1) ::
      M.panelState.slots.map fun s ↦ (M.memberName s.name, initial s.name)
  contiguous : Contiguous 0 M.panelState.slots M.panelState.size
  nodup : (M.panelState.slots.map Slot.name).Nodup
  size_lt : M.panelState.size < 2 ^ 16
  slot?_isSome : ∀ f, (M.panelState.slot? f).isSome

theorem describes_pdp11 : Describes .pdp11 pdProxy where
  items_format := by decide +kernel
  fields_eq := ⟨fun f ↦ (PacketKey.pdp11.fields.lookup (pdProxy.memberName f)).getD 0, by
    decide +kernel⟩
  contiguous := by decide +kernel
  nodup := by decide +kernel
  size_lt := by decide +kernel
  slot?_isSome f := by cases f <;> rfl

theorem describes_amd64 : Describes .amd64 amd64Proxy where
  items_format := by decide +kernel
  fields_eq := ⟨fun _ ↦ 0, by decide +kernel⟩
  contiguous := by decide +kernel
  nodup := by decide +kernel
  size_lt := by decide +kernel
  slot?_isSome f := by cases f <;> rfl

theorem describes_vax : Describes .vax netbsdvaxProxy where
  items_format := by decide +kernel
  fields_eq := ⟨fun f ↦ (PacketKey.vax.fields.lookup (netbsdvaxProxy.memberName f)).getD 0, by
    decide +kernel⟩
  contiguous := by decide +kernel
  nodup := by decide +kernel
  size_lt := by decide +kernel
  slot?_isSome f := by cases f <;> rfl

def decodedFields (M : ProxyModule) (flags : ℕ) (panel : M.Field → ℕ) : Fields :=
  ("pp_byte_count", (M.panelState.size : ℤ)) :: ("pp_byte_flags", (flags : ℤ)) ::
    M.panelState.slots.map fun s ↦ (M.memberName s.name, (panel s.name : ℤ))

namespace Describes

variable {key : PacketKey} {M : ProxyModule}

theorem keys_decodedFields (h : Describes key M) (flags : ℕ) (panel : M.Field → ℕ) :
    (decodedFields M flags panel).map Prod.fst = key.fields.map Prod.fst := by
  obtain ⟨initial, hfields⟩ := h.fields_eq
  rw [hfields, decodedFields]
  simp only [List.map_cons, List.map_map]
  rfl

theorem pack_eq (h : Describes key M) {count flags : ℤ} (value : M.Field → ℤ)
    (hfits : Fits key.format
      (count :: flags :: M.panelState.slots.map fun s ↦ value s.name)) :
    pack key.format (count :: flags :: M.panelState.slots.map fun s ↦ value s.name) =
        some (leBytes 2 count.toNat ++ (leBytes 4 flags.toNat ++
          M.panelState.slots.flatMap fun s ↦ leBytes s.size (value s.name).toNat)) ∧
      ∀ s ∈ M.panelState.slots, InRange s.size (value s.name) := by
  obtain ⟨sizes, hsizes, hrange⟩ := hfits
  obtain rfl := Option.some.inj (hsizes.symm.trans h.items_format)
  rw [List.forall₂_cons, List.forall₂_cons, forall₂_map_iff] at hrange
  obtain ⟨hcount, hflags, hvalues⟩ := hrange
  refine ⟨?_, hvalues⟩
  rw [pack, h.items_format]
  change packItems _ _ = _
  rw [packItems, if_pos hcount, packItems, if_pos hflags, packItems_map hvalues]
  rfl

theorem getPanelState_buildPacket (h : Describes key M) {fields : Fields} {flags : ℤ}
    (value : M.Field → ℤ)
    (hvalues : fields.map Prod.snd =
      (M.panelState.size : ℤ) :: flags :: M.panelState.slots.map fun s ↦ value s.name)
    (hfits : Fits key.format (fields.map Prod.snd)) :
    Accepts M.panelState.size (buildPacket fields key.format) ∧
      ∃ panel, getPanelState M.panelState (buildPacket fields key.format) = some (.ok panel) ∧
        ∀ f, (panel f : ℤ) = value f := by
  rw [hvalues] at hfits
  obtain ⟨hpack, hrange⟩ := h.pack_eq value hfits
  have hpayload := ObjType.length_flatMap_encode .little h.contiguous fun f ↦ (value f).toNat
  obtain ⟨hacc, hpeek⟩ := accepts_append flags.toNat h.size_lt hpayload
  have hbytes : buildPacket fields key.format = leBytes 2 M.panelState.size ++
      (leBytes 4 flags.toNat ++ M.panelState.slots.flatMap fun s ↦
        ByteOrder.little.encode s.size (value s.name).toNat) := by
    rw [buildPacket, hvalues, hpack]
    rfl
  rw [← hbytes] at hacc hpeek
  refine ⟨hacc, _, getPanelState_of_accepts hacc, fun f ↦ ?_⟩
  obtain ⟨s, hslot⟩ := Option.isSome_iff_exists.mp (h.slot?_isSome f)
  obtain ⟨hs, rfl⟩ := ObjType.slot?_mem hslot
  have hvalue := (hrange s hs).toNat
  have hlt : (value s.name).toNat < 256 ^ s.size :=
    inRange_natCast.mp (hvalue.symm ▸ hrange s hs)
  have hwidth : M.panelState.width s.name = s.size := by rw [ObjType.width, hslot]
  rw [hpeek, ObjType.load_flatMap_encode .little h.contiguous fun f ↦ (value f).toNat, hwidth,
    Nat.mod_eq_of_lt hlt, hvalue]

theorem buildPacket_decodedFields (h : Describes key M) {d : List UInt8}
    (hacc : Accepts M.panelState.size d) :
    buildPacket (decodedFields M (leValue (peek d 2 4))
        (M.panelState.load .little (peek d 6 M.panelState.size))) key.format =
      d.take (6 + M.panelState.size) := by
  set panel := M.panelState.load .little (peek d 6 M.panelState.size) with hpanel
  have hlen := hacc.1
  have hpayload : (peek d 6 M.panelState.size).length = M.panelState.size := length_peek hlen
  have hflags : (peek d 2 4).length = 4 := length_peek (by omega)
  have hcount : d.take 2 = leBytes 2 M.panelState.size := ((accepts_iff h.size_lt d).mp hacc).2
  have hrange : ∀ s ∈ M.panelState.slots, InRange s.size (panel s.name : ℤ) := by
    intro s hs
    have hwidth : M.panelState.width s.name = s.size := by
      rw [ObjType.width, ObjType.slot?_of_mem h.nodup hs]
    rw [inRange_natCast, ← hwidth]
    exact M.panelState.load_lt .little _ _
  have hfits : Fits key.format ((M.panelState.size : ℤ) :: (leValue (peek d 2 4) : ℤ) ::
      M.panelState.slots.map fun s ↦ (panel s.name : ℤ)) := by
    have hflagslt := ByteOrder.little.decode_lt (peek d 2 4)
    rw [hflags] at hflagslt
    exact ⟨_, h.items_format, .cons (inRange_natCast.mpr h.size_lt)
      (.cons (inRange_natCast.mpr hflagslt) (forall₂_map_iff.mpr hrange))⟩
  have hvalues : (decodedFields M (leValue (peek d 2 4)) panel).map Prod.snd =
      (M.panelState.size : ℤ) :: (leValue (peek d 2 4) : ℤ) ::
        M.panelState.slots.map fun s ↦ (panel s.name : ℤ) := by
    simp only [decodedFields, List.map_cons, List.map_map]
    rfl
  have hpack := (h.pack_eq (fun f ↦ (panel f : ℤ)) hfits).1
  have hmembers : (M.panelState.slots.flatMap fun s ↦ leBytes s.size (panel s.name : ℤ).toNat) =
      peek d 6 M.panelState.size :=
    (ObjType.flatMap_encode_load .little h.contiguous h.nodup hpayload.ge).trans
      (peek_peek (Nat.zero_add _).le)
  have hflagbytes : leBytes 4 (leValue (peek d 2 4)) = peek d 2 4 := by
    have hbytes := leBytes_leValue (peek d 2 4)
    rwa [hflags] at hbytes
  have hsplit : d.take (6 + M.panelState.size) =
      d.take 2 ++ (peek d 2 4 ++ peek d 6 M.panelState.size) := by
    have hwhole := peek_add d 0 2 (4 + M.panelState.size)
    rw [Nat.zero_add, peek_add d 2 4 M.panelState.size, ← Nat.add_assoc] at hwhole
    exact hwhole
  rw [buildPacket, hvalues, hpack, Option.getD_some, hmembers, Int.toNat_natCast,
    Int.toNat_natCast, hflagbytes, ← hcount, hsplit]

end Describes

/-! ## Sender and proxy -/

def ArrivesAsSet (parseValue : String → Option ℤ) (key : PacketKey) (M : ProxyModule) : Prop :=
  ∀ cmds : List (String × String),
    Fits key.format ((runSets parseValue key.fields cmds).map Prod.snd) →
      (runSets parseValue key.fields cmds).lookup "pp_byte_count" =
        key.fields.lookup "pp_byte_count" →
        ∃ panel json,
          getPanelState M.panelState
              (buildPacket (runSets parseValue key.fields cmds) key.format) =
            some (.ok panel) ∧
          M.udpPacketToJson (buildPacket (runSets parseValue key.fields cmds) key.format) =
            some (some json) ∧
          ∀ f, (key.fields.lookup (M.memberName f)).map
            (valueSet parseValue cmds (M.memberName f)) = some (panel f : ℤ)

/-- What becomes of an arbitrary byte string on the port of a packet type.  No read leaves the
string: such a read would leave the results undefined. -/
def DecodesExactly (key : PacketKey) (M : ProxyModule) (d : List UInt8) : Prop :=
  ((∃ panel, getPanelState M.panelState d = some (.ok panel)) ↔
      6 + M.panelState.size ≤ d.length ∧ d.take 2 = leBytes 2 M.panelState.size) ∧
    (∀ panel, getPanelState M.panelState d = some (.ok panel) →
      (decodedFields M (leValue (peek d 2 4)) panel).map Prod.fst = key.fields.map Prod.fst ∧
        buildPacket (decodedFields M (leValue (peek d 2 4)) panel) key.format =
          d.take (6 + M.panelState.size)) ∧
    ((¬∃ panel, getPanelState M.panelState d = some (.ok panel)) →
      M.udpPacketToJson d = some none) ∧
    (getPanelState M.panelState d).isSome ∧ (M.udpPacketToJson d).isSome

namespace Describes

variable {key : PacketKey} {M : ProxyModule}

theorem arrivesAsSet (h : Describes key M) (parseValue : String → Option ℤ) :
    ArrivesAsSet parseValue key M := by
  intro cmds hfits hcount
  obtain ⟨initial, hfields⟩ := h.fields_eq
  have hrun : runSets parseValue key.fields cmds =
      ("pp_byte_count", valueSet parseValue cmds "pp_byte_count" M.panelState.size) ::
        ("pp_byte_flags", valueSet parseValue cmds "pp_byte_flags" 1) ::
          M.panelState.slots.map fun s ↦ (M.memberName s.name,
            valueSet parseValue cmds (M.memberName s.name) (initial s.name)) := by
    rw [runSets_eq, hfields, List.map_cons, List.map_cons, List.map_map]
    rfl
  have hkept : valueSet parseValue cmds "pp_byte_count" M.panelState.size = M.panelState.size := by
    rw [hrun, hfields, List.lookup_cons_self, List.lookup_cons_self] at hcount
    exact Option.some.inj hcount
  have hvalues : (runSets parseValue key.fields cmds).map Prod.snd =
      (M.panelState.size : ℤ) :: valueSet parseValue cmds "pp_byte_flags" 1 ::
        M.panelState.slots.map fun s ↦
          valueSet parseValue cmds (M.memberName s.name) (initial s.name) := by
    rw [hrun, List.map_cons, List.map_cons, List.map_map, hkept]
    rfl
  obtain ⟨hacc, panel, hpanel, hpayload⟩ := h.getPanelState_buildPacket
    (fun f ↦ valueSet parseValue cmds (M.memberName f) (initial f)) hvalues hfits
  obtain ⟨-, json, hjson⟩ | ⟨hnot, -⟩ :=
    M.udpPacketToJson_eq (buildPacket (runSets parseValue key.fields cmds) key.format)
  · refine ⟨panel, json, hpanel, hjson, fun f ↦ ?_⟩
    obtain ⟨s, hslot⟩ := Option.isSome_iff_exists.mp (h.slot?_isSome f)
    obtain ⟨hs, rfl⟩ := ObjType.slot?_mem hslot
    have hentry : key.fields.lookup (M.memberName s.name) = some (initial s.name) := by
      rw [JsonObject.lookup_eq_some_iff key.nodup_fields, hfields]
      exact List.mem_cons_of_mem _ (List.mem_cons_of_mem _ (List.mem_map_of_mem hs))
    rw [hentry, hpayload s.name]
    rfl
  · exact absurd hacc hnot

theorem decodesExactly (h : Describes key M) (d : List UInt8) : DecodesExactly key M d := by
  refine ⟨exists_getPanelState_iff.trans (accepts_iff h.size_lt d), ?_, ?_, ?_, ?_⟩
  · intro panel hpanel
    have hacc := exists_getPanelState_iff.mp ⟨panel, hpanel⟩
    rw [getPanelState_of_accepts hacc] at hpanel
    cases hpanel
    exact ⟨h.keys_decodedFields _ _, h.buildPacket_decodedFields hacc⟩
  · intro hnot
    rw [exists_getPanelState_iff] at hnot
    exact replyWith_of_not_accepts M.toJson hnot
  · rcases getPanelState_eq M.panelState d with ⟨-, hstate⟩ | ⟨-, r, hstate⟩ <;> rw [hstate] <;> rfl
  · rcases M.udpPacketToJson_eq d with ⟨-, json, hjson⟩ | ⟨-, hjson⟩ <;> rw [hjson] <;> rfl

end Describes

/-- The proxy of a packet type undoes the sender, on everything the sender can build and on
everything the proxy can receive. -/
theorem sender_proxy_inverse (parseValue : String → Option ℤ) (key : PacketKey) :
    ∃ M, proxyOn key.udpPort = some M ∧
      key.fields.lookup "pp_byte_count" = some (M.panelState.size : ℤ) ∧
        ArrivesAsSet parseValue key M ∧ ∀ d, DecodesExactly key M d := by
  have hdescribes : ∃ M, proxyOn key.udpPort = some M ∧ Describes key M := by
    cases key
    · exact ⟨pdProxy, rfl, describes_pdp11⟩
    · exact ⟨amd64Proxy, rfl, describes_amd64⟩
    · exact ⟨netbsdvaxProxy, rfl, describes_vax⟩
  obtain ⟨M, hport, h⟩ := hdescribes
  refine ⟨M, hport, ?_, h.arrivesAsSet parseValue, h.decodesExactly⟩
  obtain ⟨initial, hfields⟩ := h.fields_eq
  rw [hfields, List.lookup_cons_self]

theorem sender_proxy_inverse_vax_set :
    ∃ M, proxyOn 4002 = some M ∧ ∃ panel, getPanelState M.panelState
      (buildPacket (runSets (fun _ ↦ some 18) PacketKey.vax.fields [("ps_data", "0x12")])
        PacketKey.vax.format) = some (.ok panel) := by
  obtain ⟨M, hport, -, harrives, -⟩ := sender_proxy_inverse (fun _ ↦ some 18) .vax
  have hvalues : (runSets (fun _ ↦ some 18) PacketKey.vax.fields
      [("ps_data", "0x12")]).map Prod.snd = [8, 1, 0x1000, 18] := by decide +kernel
  have hfits : Fits PacketKey.vax.format [8, 1, 0x1000, 18] :=
    ⟨[2, 4, 4, 4], by decide +kernel, .cons (by decide) (.cons (by decide) (.cons (by decide)
      (.cons (by decide) .nil)))⟩
  obtain ⟨panel, -, hpanel, -⟩ :=
    harrives [("ps_data", "0x12")] (hvalues.symm ▸ hfits) (by decide +kernel)
  exact ⟨M, hport, panel, hpanel⟩

end VPanel.Proxy
