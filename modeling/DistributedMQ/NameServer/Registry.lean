import DistributedMQ.Raft.Types

/-!
# The broker registry of the NameServer (`nameserver.go` lines 23–30, 103–143 and 284–299)

The part of `NameServer` that brokers use to find each other: `/register` and
`/broker/peers`. `Port`, which is always 0, and the time of the last update are
left out, and so are the HTTP status and the JSON around the answers.

- `RegistryOk`: broker ids are below `nextID`, the addresses are distinct and
  none of them is empty.
- `handleRegister_addresses`: a registration adds one new address or none.
-/

namespace DistributedMQ.NameServer

structure BrokerInfo where
  brokerID : ℕ
  address : String
  clientAddr : String
  hostname : String
deriving DecidableEq

/-- `n.brokers` and `n.nextID`. -/
structure Registry where
  brokers : GoMap ℕ BrokerInfo := ∅
  nextID : ℕ := 1

namespace Registry

/-- `handleRegister`: an address that is known keeps its broker id. -/
def handleRegister (n : Registry) (addr clientAddr hostname : String) :
    Registry × Except String ℕ :=
  if addr = "" ∨ clientAddr = "" then (n, .error "addr and client_addr are required")
  else
    match n.brokers.entries.find? fun x => x.2.address = addr with
    | some ⟨id, broker⟩ =>
      ({ n with brokers := n.brokers.replace id { broker with clientAddr, hostname } },
        .ok broker.brokerID)
    | none =>
      ({ brokers := n.brokers.insert n.nextID
          { brokerID := n.nextID, address := addr, clientAddr, hostname }
         nextID := n.nextID + 1 }, .ok n.nextID)

/-- `handleBrokerPeers`, in one order of the map. -/
def handleBrokerPeers (n : Registry) : List String :=
  n.brokers.entries.map fun x => x.2.address

end Registry

structure RegistryOk (n : Registry) : Prop where
  ids : ∀ id ∈ n.brokers.keys, id < n.nextID
  nodup : n.handleBrokerPeers.Nodup
  nonempty : "" ∉ n.handleBrokerPeers

theorem registryOk_empty : RegistryOk {} where
  ids := nofun
  nodup := List.nodup_nil
  nonempty := List.not_mem_nil

/-- Replacing a broker by one with the same address keeps the addresses. -/
theorem map_kreplace {id : ℕ} {broker : BrokerInfo} {l : List ((_ : ℕ) × BrokerInfo)}
    (h : ∀ x ∈ l, x.1 = id → x.2.address = broker.address) :
    (List.kreplace id broker l).map (fun x => x.2.address) = l.map fun x => x.2.address := by
  induction l with
  | nil => rfl
  | cons x l ih =>
    rw [List.kreplace, List.lookmap_cons]
    by_cases hid : id = x.1
    · simp only [if_pos hid, List.map_cons, h x List.mem_cons_self hid.symm]
    · simp only [if_neg hid, List.map_cons]
      exact congrArg _ (ih fun y hy => h y (List.mem_cons_of_mem x hy))

variable {n : Registry} {addr clientAddr hostname : String}

/-- A registration adds a new address in front, or leaves the addresses alone. -/
theorem handleRegister_addresses (h : RegistryOk n) :
    (n.handleRegister addr clientAddr hostname).1.handleBrokerPeers = n.handleBrokerPeers ∨
      addr ≠ "" ∧ addr ∉ n.handleBrokerPeers ∧
        (n.handleRegister addr clientAddr hostname).1.handleBrokerPeers =
          addr :: n.handleBrokerPeers := by
  rw [Registry.handleRegister]
  split
  · exact Or.inl rfl
  rename_i hgiven
  split
  · rename_i id broker hfind
    refine Or.inl (map_kreplace fun x hx hid => ?_)
    have hmem := List.mem_of_find?_eq_some hfind
    rw [List.NodupKeys.eq_of_fst_eq n.brokers.nodupKeys hx hmem hid]
  · rename_i hfind
    have hfresh : n.nextID ∉ n.brokers := fun hmem =>
      lt_irrefl _ (h.ids _ (AList.mem_keys.mp hmem))
    refine Or.inr ⟨fun heq => hgiven (Or.inl heq), fun hmem => ?_, ?_⟩
    · obtain ⟨x, hx, hx'⟩ := List.mem_map.mp hmem
      exact List.find?_eq_none.mp hfind x hx (decide_eq_true hx')
    · show (AList.insert n.nextID _ n.brokers).entries.map _ = _
      rw [AList.entries_insert_of_notMem hfresh]
      rfl

/-- A registration keeps ids below `nextID` and the addresses distinct. -/
theorem RegistryOk.handleRegister (h : RegistryOk n) :
    RegistryOk (n.handleRegister addr clientAddr hostname).1 := by
  have hids : ∀ id ∈ (n.handleRegister addr clientAddr hostname).1.brokers.keys,
      id < (n.handleRegister addr clientAddr hostname).1.nextID := by
    rw [Registry.handleRegister]
    split
    · exact h.ids
    split
    · rw [AList.keys_replace]
      exact h.ids
    · intro id hid
      rw [← AList.mem_keys, AList.mem_insert] at hid
      rcases hid with rfl | hid
      · exact Nat.lt_succ_self _
      · exact (h.ids id (AList.mem_keys.mp hid)).trans (Nat.lt_succ_self _)
  rcases @handleRegister_addresses n addr clientAddr hostname h with hsame | ⟨hne, hfresh, hnew⟩
  · exact ⟨hids, hsame ▸ h.nodup, hsame ▸ h.nonempty⟩
  · refine ⟨hids, hnew ▸ List.nodup_cons.mpr ⟨hfresh, h.nodup⟩, ?_⟩
    rw [hnew, List.mem_cons]
    rintro (heq | hmem)
    · exact hne heq.symm
    · exact h.nonempty hmem

end DistributedMQ.NameServer
