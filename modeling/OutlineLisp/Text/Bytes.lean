/-!
# Offsets into a text

Offsets count bytes, and a character takes one to four of them. So an offset may lie inside a
character, and two offsets enclose a stretch of a text only if both lie between characters and the
first is not behind the second.

## Main definitions

* `Text.byteSize`: how many bytes characters take.
* `Text.splitBytes?`: a text in two parts at an offset.
* `Text.slice?`: the stretch of a text between two offsets.
* `Text.offsetsOf`: where a character stands.

## Main results

* `Text.splitBytes?_eq_some_iff`, `Text.slice?_eq_some_iff`: the offsets at which a text can be cut.
-/

namespace OutlineLisp

namespace Text

/-- How many bytes characters take. -/
def byteSize (cs : List Char) : Nat := cs.foldr (fun c n => c.utf8Size + n) 0

/-- A text in two parts, of which the first takes so many bytes. There are no such parts if the
offset lies inside a character or behind the end. -/
def splitBytes? : Nat → List Char → Option (List Char × List Char)
  | 0, cs => some ([], cs)
  | _ + 1, [] => none
  | n + 1, c :: cs =>
    if c.utf8Size ≤ n + 1 then
      (splitBytes? (n + 1 - c.utf8Size) cs).map fun (front, rest) => (c :: front, rest)
    else none

/-- The stretch of a text between two offsets, if the text can be cut at both and they are in
order. -/
def slice? (cs : List Char) (start stop : Nat) : Option (List Char) :=
  if start ≤ stop then do
    let (_, rest) ← splitBytes? start cs
    let (inner, _) ← splitBytes? (stop - start) rest
    return inner
  else none

/-- The offsets at which a character stands, the text itself standing at a given offset. -/
def offsetsOf (x : Char) (offset : Nat) : List Char → List Nat
  | [] => []
  | c :: cs =>
    if c = x then offset :: offsetsOf x (offset + c.utf8Size) cs
    else offsetsOf x (offset + c.utf8Size) cs

@[simp] theorem byteSize_nil : byteSize [] = 0 := rfl

@[simp] theorem byteSize_cons (c : Char) (cs : List Char) :
    byteSize (c :: cs) = c.utf8Size + byteSize cs := rfl

@[simp] theorem byteSize_append (cs ds : List Char) :
    byteSize (cs ++ ds) = byteSize cs + byteSize ds := by
  induction cs with
  | nil => simp
  | cons c cs ih => simp [ih, Nat.add_assoc]

theorem splitBytes?_append (front rest : List Char) :
    splitBytes? (byteSize front) (front ++ rest) = some (front, rest) := by
  induction front with
  | nil => rw [byteSize_nil, splitBytes?, List.nil_append]
  | cons c front ih =>
    have hpos := c.utf8Size_pos
    obtain ⟨n, hn⟩ := Nat.exists_eq_add_of_lt (Nat.add_pos_left hpos (byteSize front))
    have hsize : n + 1 - c.utf8Size = byteSize front := by omega
    rw [byteSize_cons, hn, Nat.zero_add, List.cons_append, splitBytes?, if_pos (by omega), hsize,
      ih]
    rfl

/-- **A text can be cut** just behind its first characters. -/
theorem splitBytes?_eq_some_iff {n : Nat} {cs front rest : List Char} :
    splitBytes? n cs = some (front, rest) ↔ cs = front ++ rest ∧ byteSize front = n := by
  constructor
  · intro h
    fun_induction splitBytes? n cs generalizing front with
    | case1 cs =>
      obtain ⟨rfl, rfl⟩ := Prod.mk.inj (Option.some.inj h)
      simp
    | case2 => simp at h
    | case3 n c cs hle ih =>
      obtain ⟨⟨front', rest'⟩, hsplit, heq⟩ := Option.map_eq_some_iff.1 h
      obtain ⟨rfl, rfl⟩ := Prod.mk.inj heq
      obtain ⟨rfl, hsize⟩ := ih hsplit
      refine ⟨rfl, ?_⟩
      rw [byteSize_cons, hsize]
      omega
    | case4 => simp at h
  · rintro ⟨rfl, rfl⟩
    exact splitBytes?_append front rest

/-- **Two offsets enclose a stretch** if each of them is the size of some first characters. -/
theorem slice?_eq_some_iff {cs inner : List Char} {start stop : Nat} :
    slice? cs start stop = some inner ↔
      ∃ front rest, cs = front ++ inner ++ rest ∧ byteSize front = start ∧
        byteSize (front ++ inner) = stop := by
  rw [slice?]
  constructor
  · intro h
    split at h
    · obtain ⟨⟨front, rest⟩, hfront, h⟩ := Option.bind_eq_some_iff.1 h
      obtain ⟨⟨inner', rest'⟩, hinner, h⟩ := Option.bind_eq_some_iff.1 h
      obtain rfl := Option.some.inj h
      obtain ⟨rfl, hstart⟩ := splitBytes?_eq_some_iff.1 hfront
      obtain ⟨rfl, hsize⟩ := splitBytes?_eq_some_iff.1 hinner
      refine ⟨front, rest', (List.append_assoc _ _ _).symm, hstart, ?_⟩
      rw [byteSize_append]
      omega
    · simp at h
  · rintro ⟨front, rest, rfl, rfl, rfl⟩
    have hsize : byteSize (front ++ inner) - byteSize front = byteSize inner := by simp
    rw [if_pos (by simp), hsize, List.append_assoc, splitBytes?_append]
    show (splitBytes? (byteSize inner) (inner ++ rest) >>= _) = _
    rw [splitBytes?_append]
    rfl

end Text

end OutlineLisp
