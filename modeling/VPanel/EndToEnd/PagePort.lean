import VPanel.Library.JsonObject
import VPanel.Proxy.JsonDump
import VPanel.Proxy.Modules

/-!
# The port of a page

The web server publishes the ports of the proxies as a JSON text.  A page takes
the name of its directory from its URL and opens a WebSocket on the port that
the text gives for this name.
-/

namespace VPanel.EndToEnd

open JsonText Proxy
open Proxy.Crow (Wvalue)

/-! ## The web server -/

/-- `proxy_ports`, a map from names to ports. -/
abbrev ProxyPorts := List (List Char × BitVec 16)

def addProxyPort (proxyPorts : ProxyPorts) (proxyName : List Char) (port : BitVec 16) :
    ProxyPorts :=
  (proxyName, port) :: proxyPorts.filter fun e ↦ e.1 ≠ proxyName

/-- `json[key] = v`, which turns any other value into an object first. -/
def assign (json : Wvalue) (key : List Char) (v : Wvalue) : Wvalue :=
  match json with
  | .object o => .object ((key, v) :: o.filter fun e ↦ e.1 ≠ key)
  | _ => .object [(key, v)]

def portOf (port : BitVec 16) : Wvalue := .unsigned (port.setWidth 64)

def configJson (proxyPorts : ProxyPorts) : Wvalue :=
  assign .null "proxy_ports".toList
    (proxyPorts.foldl (fun json e ↦ assign json e.1 (portOf e.2)) .null)

/-- A body of `/config.json`: the ports are dumped in the order of a hash table. -/
def ConfigText (proxyPorts : ProxyPorts) (text : List Char) : Prop :=
  ∃ traversed : ProxyPorts, traversed.Perm proxyPorts ∧ text = (configJson traversed).dump

theorem foldl_assign {proxyPorts : ProxyPorts} (h : (proxyPorts.map Prod.fst).Nodup)
    {o : List (List Char × Wvalue)} (hfresh : ∀ e ∈ proxyPorts, ∀ f ∈ o, f.1 ≠ e.1) :
    proxyPorts.foldl (fun json e ↦ assign json e.1 (portOf e.2)) (.object o) =
      .object ((proxyPorts.map fun e ↦ (e.1, portOf e.2)).reverse ++ o) := by
  induction proxyPorts generalizing o with
  | nil => rfl
  | cons e rest ih =>
      have hnodup := List.nodup_cons.mp h
      have hfilter : (o.filter fun f ↦ f.1 ≠ e.1) = o := List.filter_eq_self.mpr fun f hf ↦
        decide_eq_true (hfresh e (List.mem_cons_self ..) f hf)
      have hnext : ∀ e' ∈ rest, ∀ f ∈ (e.1, portOf e.2) :: o, f.1 ≠ e'.1 := by
        intro e' he' f hf
        rcases List.mem_cons.mp hf with rfl | hf
        · exact fun heq ↦ hnodup.1 (heq ▸ List.mem_map_of_mem he')
        · exact hfresh e' (List.mem_cons_of_mem _ he') f hf
      rw [List.foldl_cons, assign, hfilter, ih hnodup.2 hnext, List.map_cons, List.reverse_cons,
        List.append_assoc, List.singleton_append]

theorem configJson_cons {e : List Char × BitVec 16} {rest : ProxyPorts}
    (h : ((e :: rest).map Prod.fst).Nodup) :
    configJson (e :: rest) = .object [("proxy_ports".toList,
      .object ((e :: rest).map fun e ↦ (e.1, portOf e.2)).reverse)] := by
  have hnodup := List.nodup_cons.mp h
  have hfresh : ∀ e' ∈ rest, ∀ f ∈ [(e.1, portOf e.2)], f.1 ≠ e'.1 := by
    intro e' he' f hf
    rw [List.mem_singleton.mp hf]
    exact fun heq ↦ hnodup.1 (heq ▸ List.mem_map_of_mem he')
  rw [configJson, List.foldl_cons]
  change assign .null _ (rest.foldl _ (.object [(e.1, portOf e.2)])) = _
  rw [foldl_assign hnodup.2 hfresh, List.map_cons, List.reverse_cons]
  rfl

/-! ## The page -/

/-- `panelKey` of `openWebSocket`, where it is a string. -/
def panelKey (pathname : List Char) : Option (List Char) :=
  let pathParts := (pathname.splitOn '/').filter fun part ↦ part ≠ []
  match pathParts.getLast? with
  | none => none
  | some last => if '.' ∈ last then pathParts.dropLast.getLast? else some last

def portNumber : Json → Option ℕ
  | .number false n 0 => some n
  | _ => none

/-- The port in `wsUrl`, where the text gives a number for the page. -/
def wsPort (config pathname : List Char) : Option ℕ := do
  let cfg ← parse config
  let proxyPorts ← cfg.get? "proxy_ports".toList
  let key ← panelKey pathname
  portNumber (← proxyPorts.get? key)

/-- `/dir/../name/file`; an empty `file` is a path that ends with a slash. -/
def path (dirs : List (List Char)) (name file : List Char) : List Char :=
  ['/'].intercalate ([] :: dirs ++ [name, file])

theorem panelKey_path {dirs : List (List Char)} {name file : List Char}
    (hdirs : ∀ dir ∈ dirs, '/' ∉ dir) (hname : '/' ∉ name) (hne : name ≠ []) (hfile : '/' ∉ file)
    (h : '.' ∈ file ∨ file = [] ∧ '.' ∉ name) : panelKey (path dirs name file) = some name := by
  have hparts : ∀ part ∈ [] :: dirs ++ [name, file], '/' ∉ part := by
    intro part hpart
    rw [List.cons_append, List.mem_cons, List.mem_append] at hpart
    rcases hpart with rfl | hdir | hlast
    · exact List.not_mem_nil
    · exact hdirs part hdir
    · rcases List.mem_pair.mp hlast with rfl | rfl
      · exact hname
      · exact hfile
  rw [panelKey, path, List.splitOn_intercalate '/' hparts (by simp)]
  rcases h with hdot | ⟨rfl, hdot⟩
  · have hfile : file ≠ [] := List.ne_nil_of_mem hdot
    simp [List.filter_append, hne, hfile, hdot, List.getLast?_append]
  · simp [List.filter_append, hne, hdot, List.getLast?_append]

/-! ## Text and page together -/

theorem get?_portMembers {proxyPorts : ProxyPorts} (h : (proxyPorts.map Prod.fst).Nodup)
    {key : List Char} {n : ℕ} :
    (Wvalue.object (proxyPorts.map fun e ↦ (e.1, portOf e.2)).reverse).toJson.get? key =
        some (.number false n 0) ↔
      ∃ port, (key, port) ∈ proxyPorts ∧ n = port.toNat := by
  have hport : ∀ port : BitVec 16, (portOf port).toJson = Json.number false port.toNat 0 := by
    intro port
    change Json.number false (port.setWidth 64).toNat 0 = _
    rw [BitVec.toNat_setWidth_of_le (by norm_num)]
  have hmembers : (Wvalue.object (proxyPorts.map fun e ↦ (e.1, portOf e.2)).reverse).toJson =
      .object (proxyPorts.map fun e ↦ (e.1, Json.number false e.2.toNat 0)).reverse := by
    change Json.object (Crow.membersToJson _) = _
    rw [Crow.membersToJson_eq, List.map_reverse, List.map_map]
    simp [hport, Function.comp_def]
  have hnodup : ((proxyPorts.map fun e ↦
      (e.1, Json.number false e.2.toNat 0)).map Prod.fst).Nodup := by
    rw [List.map_map]
    exact h
  rw [hmembers, Json.get?, List.reverse_reverse, JsonObject.lookup_eq_some_iff hnodup,
    List.mem_map]
  constructor
  · rintro ⟨⟨name, port⟩, hmem, heq⟩
    cases heq
    exact ⟨port, hmem, rfl⟩
  · rintro ⟨port, hmem, rfl⟩
    exact ⟨(key, port), hmem, rfl⟩

theorem portNumber_eq_some_iff {v : Json} {n : ℕ} :
    portNumber v = some n ↔ v = .number false n 0 := by
  constructor
  · intro h
    unfold portNumber at h
    split at h
    · cases h
      rfl
    · cases h
  · rintro rfl
    rfl

theorem wsPort_dump (x : Wvalue) (pathname : List Char) :
    wsPort (Wvalue.object [("proxy_ports".toList, x)]).dump pathname =
      (panelKey pathname).bind fun key ↦ (x.toJson.get? key).bind portNumber := by
  have hparse := (Crow.reads_dump (.object [("proxy_ports".toList, x)])).parse
  rw [wsPort, hparse]
  rfl

theorem wsPort_eq_some_iff {proxyPorts : ProxyPorts} (hnames : (proxyPorts.map Prod.fst).Nodup)
    {text : List Char} (htext : ConfigText proxyPorts text) {pathname : List Char} {n : ℕ} :
    wsPort text pathname = some n ↔
      ∃ name port, panelKey pathname = some name ∧ (name, port) ∈ proxyPorts ∧ n = port.toNat := by
  obtain ⟨traversed, hperm, rfl⟩ := htext
  have hnodup : (traversed.map Prod.fst).Nodup := (hperm.map Prod.fst).nodup_iff.mpr hnames
  simp only [← hperm.mem_iff]
  cases traversed with
  | nil =>
      -- without proxies the member is `null`
      change wsPort (Wvalue.object [("proxy_ports".toList, .null)]).dump pathname = _ ↔ _
      rw [wsPort_dump]
      simp [Wvalue.toJson, Json.get?]
  | cons e rest =>
      rw [configJson_cons hnodup, wsPort_dump, Option.bind_eq_some_iff]
      simp only [Option.bind_eq_some_iff, portNumber_eq_some_iff, exists_eq_right,
        get?_portMembers hnodup]
      constructor
      · rintro ⟨name, hkey, port, hmem, hn⟩
        exact ⟨name, port, hkey, hmem, hn⟩
      · rintro ⟨name, port, hkey, hmem, hn⟩
        exact ⟨name, hkey, port, hmem, hn⟩

/-! ## The proxies of `main.cpp` -/

structure Servers where
  proxyPorts : ProxyPorts
  proxies : List (ℕ × ProxyModule)

/-- `add_proxy<T>(name, port)`. -/
def Servers.addProxy (s : Servers) (name : List Char) (port : BitVec 16) (T : ProxyModule) :
    Servers where
  proxyPorts := addProxyPort s.proxyPorts name port
  proxies := s.proxies ++ [(port.toNat, T)]

def pdproxyName : List Char := "pdproxy".toList

def amd64proxyName : List Char := "amd64proxy".toList

def netbsdvaxproxyName : List Char := "netbsdvax".toList

/-- The calls of `add_proxy` in `main`. -/
def added : List (List Char × BitVec 16 × ProxyModule) :=
  [(pdproxyName, 4000, pdProxy), (amd64proxyName, 4001, amd64Proxy),
    (netbsdvaxproxyName, 4002, netbsdvaxProxy)]

def mainServers : Servers := added.foldl (fun s e ↦ s.addProxy e.1 e.2.1 e.2.2) ⟨[], []⟩

theorem mainServers_proxies : mainServers.proxies = proxies := rfl

theorem mainServers_proxyPorts : mainServers.proxyPorts =
    [(netbsdvaxproxyName, 4002), (amd64proxyName, 4001), (pdproxyName, 4000)] := by decide

theorem nodup_mainPorts : (mainServers.proxyPorts.map Prod.fst).Nodup := by
  rw [mainServers_proxyPorts]
  decide

theorem mem_mainPorts_iff {e : List Char × BitVec 16 × ProxyModule} (h : e ∈ added)
    {name : List Char} {port : BitVec 16} (hmem : (name, port) ∈ mainServers.proxyPorts) :
    port.toNat = e.2.1.toNat ↔ name = e.1 := by
  rw [mainServers_proxyPorts] at hmem
  simp only [added, List.mem_cons, List.not_mem_nil, or_false, Prod.mk.injEq] at h hmem
  rcases h with rfl | rfl | rfl <;> rcases hmem with ⟨rfl, rfl⟩ | ⟨rfl, rfl⟩ | ⟨rfl, rfl⟩ <;>
    decide

theorem mem_mainPorts {e : List Char × BitVec 16 × ProxyModule} (h : e ∈ added) :
    (e.1, e.2.1) ∈ mainServers.proxyPorts ∧ mainServers.proxies.lookup e.2.1.toNat = some e.2.2 ∧
      '/' ∉ e.1 ∧ e.1 ≠ [] ∧ '.' ∉ e.1 := by
  rw [mainServers_proxyPorts, mainServers_proxies]
  simp only [added, List.mem_cons, List.not_mem_nil, or_false] at h
  rcases h with rfl | rfl | rfl <;> exact ⟨by decide, rfl, by decide, by decide, by decide⟩

/-- A page in the directory that is named like a proxy connects to the port on which this
proxy runs, and no other page does. -/
theorem pages_connect {name : List Char} {port : BitVec 16} {M : ProxyModule}
    (h : (name, port, M) ∈ added) {text : List Char}
    (htext : ConfigText mainServers.proxyPorts text) :
    mainServers.proxies.lookup port.toNat = some M ∧
      (∀ pathname, wsPort text pathname = some port.toNat ↔ panelKey pathname = some name) ∧
      ∀ (dirs : List (List Char)) (file : List Char), (∀ dir ∈ dirs, '/' ∉ dir) → '/' ∉ file →
        ('.' ∈ file ∨ file = []) → wsPort text (path dirs name file) = some port.toNat := by
  obtain ⟨hport, hM, hslash, hne, hdot⟩ := mem_mainPorts h
  have hconnects : ∀ pathname,
      wsPort text pathname = some port.toNat ↔ panelKey pathname = some name := by
    intro pathname
    rw [wsPort_eq_some_iff nodup_mainPorts htext]
    constructor
    · rintro ⟨name', port', hkey, hmem, heq⟩
      have hname : name' = name := (mem_mainPorts_iff h hmem).mp heq.symm
      rw [hkey, hname]
    · exact fun hkey ↦ ⟨name, port, hkey, hport, rfl⟩
  refine ⟨hM, hconnects, fun dirs file hdirs hfile hlast ↦ (hconnects _).mpr ?_⟩
  exact panelKey_path hdirs hslash hne hfile (hlast.imp_right fun h ↦ ⟨h, hdot⟩)

theorem pages_connect_pdproxy :
    wsPort (configJson mainServers.proxyPorts).dump "/pdproxy/index.html".toList = some 4000 :=
  have hmem : (pdproxyName, 4000, pdProxy) ∈ added := List.mem_cons_self
  (pages_connect hmem ⟨_, .refl _, rfl⟩).2.2 [] "index.html".toList (by simp) (by decide)
    (by decide)

end VPanel.EndToEnd
