import SketchCompiler.Proofs.WrittenNumbers

namespace SketchCompiler

open Emit List

/-- Where the namespaces `ns` are open, the pieces leave `ms` open. -/
inductive Opens : List String → List SketchPiece → List String → Prop where
  | nil (ns : List String) : Opens ns [] ns
  | opening {ns ms name x xs} (hx : x.role = .opening) (hlines : x.lines = [.code 0 s!"namespace {name} \x7b", .blank])
      (h : Opens (ns ++ [name]) xs ms) : Opens ns (x :: xs) ms
  | closing {ns ms name x xs} (hx : x.role = .closing)
      (hlines : x.lines = [.code 0 s!"\x7d // namespace {name}", .blank]) (h : Opens ns xs ms) :
      Opens (ns ++ [name]) (x :: xs) ms
  | inside {ns ms x xs} (hx : x.role ≠ .opening) (hx' : x.role ≠ .closing) (h : Opens ns xs ms) : Opens ns (x :: xs) ms

namespace Opens

variable {ns ms ls : List String} {xs ys : List SketchPiece}

lemma append (h : Opens ns xs ms) (h' : Opens ms ys ls) : Opens ns (xs ++ ys) ls := by
  induction h with
  | nil => exact h'
  | opening hx hlines _ ih => exact .opening hx hlines (ih h')
  | closing hx hlines _ ih => exact .closing hx hlines (ih h')
  | inside hx hx' _ ih => exact .inside hx hx' (ih h')

lemma map_below (j : Nat) (h : Opens ns xs ms) : Opens ns (xs.map (·.below j)) ms := by
  induction h with
  | nil => exact .nil _
  | opening hx hlines _ ih => exact .opening hx hlines ih
  | closing hx hlines _ ih => exact .closing hx hlines ih
  | inside hx hx' _ ih => exact .inside hx hx' ih

end Opens

/-- All namespaces that the pieces open are closed again, and each piece stands in those of the modules above it. -/
def Program.Nests (p : Program) (xs : List SketchPiece) : Prop :=
  ∀ ns, Opens ns xs ns ∧ ∀ ys x zs, xs = ys ++ x :: zs → x.role ≠ .closing → Opens ns ys (ns ++ p.aliasesTo x.place)

namespace Program.Nests

variable {p q : Program} {xs ys : List SketchPiece}

lemma nil : p.Nests [] := fun ns => ⟨.nil ns, fun ys x zs h => by simp at h⟩

lemma append (h : p.Nests xs) (h' : p.Nests ys) : p.Nests (xs ++ ys) := by
  intro ns
  obtain ⟨hall, hsplit⟩ := h ns
  obtain ⟨hall', hsplit'⟩ := h' ns
  refine ⟨hall.append hall', fun as x bs he hx => ?_⟩
  rcases append_eq_append_iff.mp he with ⟨cs, rfl, hys⟩ | ⟨cs, hxs, hcs⟩
  · exact hall.append (hsplit' cs x bs hys hx)
  · cases cs with
    | nil =>
      have has := hall.append (hsplit' [] x bs hcs.symm hx)
      rw [hxs, append_nil, append_nil] at has
      exact has
    | cons c cs =>
      obtain ⟨rfl, rfl⟩ := List.cons.inj hcs
      exact hsplit as x cs hxs hx

lemma of_inside (h : ∀ x ∈ xs, x.role ≠ .opening ∧ x.role ≠ .closing ∧ x.place.length ≤ 1) : p.Nests xs := by
  intro ns
  have hall (ys : List SketchPiece) (hys : ys ⊆ xs) : Opens ns ys ns := by
    induction ys with
    | nil => exact .nil ns
    | cons y ys ih =>
      obtain ⟨hy, hys⟩ := cons_subset.mp hys
      exact .inside (h y hy).1 (h y hy).2.1 (ih hys)
  refine ⟨hall xs (List.Subset.refl xs), ?_⟩
  rintro ys x zs rfl -
  have haliases : p.aliasesTo x.place = [] := by
    have hlength := (h x (mem_append_right _ mem_cons_self)).2.2
    rcases hplace : x.place with _ | ⟨j, _ | ⟨m, a⟩⟩
    · rfl
    · rfl
    · simp [hplace] at hlength
  rw [haliases, append_nil]
  exact hall ys (subset_append_left _ _)

lemma inModule {j : Nat} {l} {aliasName : Name} {file} {symbol}
    (hj : p.items[j]? = some (.module l aliasName file symbol q)) (h : q.Nests xs) :
    p.Nests (⟨[j], .opening, [.code 0 s!"namespace {aliasName.text} \x7b", .blank]⟩ :: xs.map (·.below j) ++
      [⟨[j], .closing, [.code 0 s!"\x7d // namespace {aliasName.text}", .blank]⟩]) := by
  intro ns
  obtain ⟨hall, hsplit⟩ := h (ns ++ [aliasName.text])
  have hlast := (hall.map_below j).append (.closing rfl rfl (.nil ns) :
    Opens _ [⟨[j], .closing, [.code 0 s!"\x7d // namespace {aliasName.text}", .blank]⟩] ns)
  refine ⟨.opening rfl rfl hlast, fun ys x zs he hx => ?_⟩
  cases ys with
  | nil =>
    obtain ⟨rfl, -⟩ := List.cons.inj he
    simpa [aliasesTo] using Opens.nil ns
  | cons y ys =>
    obtain ⟨rfl, htail⟩ := List.cons.inj he
    refine .opening rfl rfl ?_
    rcases append_eq_append_iff.mp htail with ⟨cs, rfl, hcs⟩ | ⟨cs, hmap, hcs⟩
    · cases cs with
      | nil =>
        obtain ⟨rfl, -⟩ := List.cons.inj hcs
        exact absurd rfl hx
      | cons c cs => simp at hcs
    · cases cs with
      | nil =>
        obtain ⟨rfl, -⟩ := List.cons.inj hcs
        exact absurd rfl hx
      | cons c cs =>
        obtain ⟨rfl, rfl⟩ := List.cons.inj hcs
        obtain ⟨ys', rest, rfl, rfl, hrest⟩ := map_eq_append_iff.mp hmap
        obtain ⟨x', zs', rfl, rfl, rfl⟩ := map_eq_cons_iff.mp hrest
        have hys := (hsplit ys' x' zs' rfl hx).map_below j
        simpa [SketchPiece.below, aliasesTo_below hj] using hys

end Program.Nests

lemma Emit.nests_unitPieces (k : Scene) (path : List String) (root : Bool) (p : Program) (s : Emission) :
    p.Nests ((unitPieces k path root p.items).run s).1 := by
  refine .of_inside fun x hx => ?_
  rw [unitPieces_eq] at hx
  obtain ⟨y, hy, s', rfl⟩ := exists_of_mem_mapM hx
  rcases mem_unitKeys.mp hy with rfl | ⟨j, r, -, hr, rfl⟩
  · exact ⟨nofun, nofun, Nat.zero_le 1⟩
  · refine ⟨?_, ?_, Nat.le_refl 1⟩ <;>
      · rintro rfl
        cases hr

mutual

lemma Item.nests_modulePieces (k : Scene) (path : List String) {p : Program} {j} (i : Item)
    (hi : p.items[j]? = some i) (s : Emission) : p.Nests ((i.modulePieces k path j).run s).1 := by
  cases i with
  | module l aliasName file symbol program =>
    exact .inModule hi (program.nests_pieces k (path ++ [aliasName.text]) false s)
  | _ => exact .nil

lemma nests_modulePieces (k : Scene) (path : List String) {p : Program} {j : Nat} (items : List Item)
    (h : p.items.drop j = items) (s : Emission) : p.Nests ((modulePieces k path j items).run s).1 := by
  cases items with
  | nil => exact .nil
  | cons i is =>
    obtain ⟨hi, his⟩ := of_drop_eq_cons h
    exact (i.nests_modulePieces k path hi s).append (nests_modulePieces k path is his _)

lemma Program.nests_pieces (k : Scene) (path : List String) (root : Bool) (p : Program) (s : Emission) :
    p.Nests ((p.pieces k path root).run s).1 := by
  obtain ⟨name, mainMark, items⟩ := p
  exact (nests_modulePieces k path items rfl s).append (nests_unitPieces k path root ⟨name, mainMark, items⟩ _)

end

/-- The code of an item: the only piece with its key, in the namespaces of the modules above it, and written with the
aliases of these and with the numbers of what is written before. -/
lemma Program.codePiece_eq {p : Program} {a : List Nat} {i : Item} (k : Scene)
    (h : (Node.unit p).at? a = some (.item i)) : ∃ xs ys s, s.counts = p.numbersAt a ∧ p.sketchPieces k =
      xs ++ ⟨a, .code, ((i.lines k (p.aliasesTo a) (a.length = 1)).run s).1⟩ :: ys ∧ Opens [] xs (p.aliasesTo a) := by
  obtain ⟨xs, ys, hkeys⟩ := append_of_mem (mem_keys h (.inl rfl : Role.code.Suits i))
  obtain ⟨zs, ws, hpieces⟩ := sketchPieces_split k hkeys
  rw [writes_code k h] at hpieces
  refine ⟨zs, ws, p.stateAfter k xs, by rw [counts_stateAfter, numbersAt_eq hkeys], hpieces, ?_⟩
  have hnests := p.nests_pieces k [] true k.start
  rw [pieces_eq, ← sketchPieces_eq] at hnests
  exact (hnests []).2 _ _ _ hpieces (by simp)

end SketchCompiler
