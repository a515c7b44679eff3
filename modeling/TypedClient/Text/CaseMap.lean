import TypedClient.Text.CharClass

/-!
# Upper and lower case

Full case mapping: one character may become up to three (`ß` in upper case is `SS`), and the last
sigma of a word has a lower-case form of its own.

* `upper` and `lower` map one character, without regard to its neighbours;
* `lowerText` maps a text, where only sigma looks at what stands around it.

The tables hold rows of four base-36 numbers.  A row of a *run* table says where a run of
characters starts, how many it holds, the distance between neighbours (1 or 2), and the character
the first one maps to; the others keep the same offset.  A row of an *expansion* table is one
character and its mapping of two or three characters, filled up with zeros.
-/

set_option autoImplicit false

namespace TypedClient.Text

/-- A run of characters, evenly spaced, that case mapping moves by one and the same distance. -/
structure CaseRun where
  /-- The first character of the run. -/
  start : Nat
  /-- How many characters the run holds. -/
  count : Nat
  /-- The distance between neighbours. -/
  stride : Nat
  /-- What the first character maps to. -/
  image : Nat

/-- The image of a code point under a run that holds it. -/
def CaseRun.map? (r : CaseRun) (x : Nat) : Option Nat :=
  if r.start ≤ x ∧ x < r.start + r.count * r.stride ∧ (x - r.start) % r.stride = 0 then
    some (r.image + (x - r.start))
  else none

/-- The rows of a run table, read from its base-36 text. -/
def caseRuns : List Nat → List CaseRun
  | start :: count :: stride :: image :: rest => ⟨start, count, stride, image⟩ :: caseRuns rest
  | _ => []

/-- The rows of an expansion table: a code point with the characters it becomes. -/
def caseExpansions : List Nat → List (Nat × List Char)
  | x :: a :: b :: c :: rest =>
    (x, [a, b, c].filterMap fun n => if n = 0 then none else some (Char.ofNat n))
      :: caseExpansions rest
  | _ => []

/-- Characters whose upper case is one character. -/
def upperRuns : Array CaseRun := (caseRuns <| base36Numbers 0 <| String.toList
  "2p q 1 1t 51 1 1 po 68 n 1 5c 6w 7 1 60 73 1 1 ag 75 o 2 74 8h 1 1 21 8j 3 2 8i 8q 8 2
8p 97 n 2 96 ai 3 2 ah an 1 1 2b ao 1 1 g3 ar 2 2 aq aw 1 1 av b0 1 1 az b6 1 1 b5 b9 1
1 dy bd 1 1 bc be 1 1 fx bf 1 1 x5o bi 1 1 f4 bl 3 2 bk bs 1 1 br bx 1 1 bw c0 1 1 bz c4
2 2 c3 c9 1 1 c8 cd 1 1 cc cf 1 1 dz cl 1 1 ck cm 1 1 ck co 1 1 cn cp 1 1 cn cr 1 1 cq
cs 1 1 cq cu 8 2 ct d9 1 1 b2 db 9 2 da du 1 1 dt dv 1 1 dt dx 1 1 dw e1 k 2 e0 f7 9 2
f6 fw 1 1 fv fz 2 1 8se g2 1 1 g1 g7 5 2 g6 gg 1 1 8rz gh 1 1 8rx gi 1 1 8s0 gj 1 1 ap
gk 1 1 au gm 2 1 ax gp 1 1 b3 gr 1 1 b4 gs 1 1 x4b gw 1 1 b7 gx 1 1 x4c gz 1 1 b8 h0 1 1
x57 h1 1 1 x3h h2 1 1 x4a h4 1 1 bb h5 1 1 ba h6 1 1 x4e h7 1 1 8rm h8 1 1 x4d hb 1 1 bg
hd 1 1 8ry he 1 1 bh hh 1 1 bj hp 1 1 8ro hs 1 1 bq hu 1 1 x51 hv 1 1 bt hz 1 1 x4h i0 1
1 by i1 1 1 g4 i2 2 1 c1 i4 1 1 g5 ia 1 1 c7 il 1 1 x4i im 1 1 x4g n9 1 1 pl oh 2 2 og
on 1 1 om or 3 1 sd q4 1 1 p2 q5 3 1 p4 q9 h 1 pd qq 1 1 pv qr 9 1 pv r0 1 1 p8 r1 2 1
pa r4 1 1 pe r5 1 1 pk r9 1 1 py ra 1 1 ps rb 1 1 r3 rd c 2 rc s0 1 1 pm s1 1 1 pt s2 1
1 s9 s3 1 1 ov s5 1 1 ph s8 1 1 s7 sb 1 1 sa ts w 1 sw uo g 1 sg v5 h 2 v4 wb r 2 wa xu
7 2 xt y7 1 1 xs y9 1c 2 y8 129 12 1 10x 3bk 17 1 5n4 3ct 3 1 5od 3y0 6 1 3xs 5mo 1 1 sy
5mp 1 1 t0 5mq 1 1 ta 5mr 2 1 td 5mt 1 1 te 5mu 1 1 tm 5mv 1 1 v6 5mw 1 1 wui 5my 1 1
5mx 5tl 1 1 x31 5tp 1 1 8rn 5u6 1 1 x52 5xd 23 2 5xc 61n 1 1 600 61t 1c 2 61s 64g 8 1
64o 64w 6 1 654 65c 8 1 65k 65s 8 1 660 668 6 1 66g 66p 4 2 66x 674 8 1 67c 67k 2 1 69m
67m 4 1 6a0 67q 2 1 6ai 67s 2 1 6bc 67u 2 1 6ay 67w 2 1 6be 69c 2 1 69k 69q 1 1 pl 6a8 2
1 6ag 6ao 2 1 6aw 6at 1 1 6b0 6ku 1 1 6k2 6ls g 1 6lc 6mc 1 1 6mb 79s q 1 792 8q8 1c 1
8ow 8rl 1 1 8rk 8rp 1 1 fu 8rq 1 1 fy 8rs 3 2 8rr 8s3 1 1 8s2 8s6 1 1 8s5 8sh 1e 2 8sg
8vg 2 2 8vf 8vn 1 1 8vm 8w0 12 1 3a8 8x3 1 1 3bb 8x9 1 1 3bh wu9 n 2 wu8 ww1 e 2 ww0 x0j
7 2 x0i x0z v 2 x0y x2y 2 2 x2x x33 5 2 x32 x3g 1 1 x3f x3l 2 2 x3k x3o 1 1 x50 x3r a 2
x3q x4l 8 2 x4k x54 2 2 x53 x59 8 2 x58 x6e 1 1 x6d xub 1 1 x4j xv4 28 1 3vk 1ef5 q 1
1ee9 1fe0 14 1 1fcw 1fiw 10 1 1fhs 1fo7 b 1 1fn4 1foj f 1 1fng 1foz 7 1 1fnw 1fp7 2 1
1fo4 1h34 1f 1 1h1c 1h80 m 1 1h74 1jgg w 1 1jfk 20dc w 1 20cg 20fv p 1 20f4 2oma y 1
2olc").toArray

/-- Characters whose upper case is several characters. -/
def upperExpansions : List (Nat × List Char) := caseExpansions <| base36Numbers 0 <| String.toList
  "67 2b 2b 0 95 jg 26 0 ds 22 lo 0 pc pl lk ld q8 px lk ld 13b 111 11u 0 61i 20 mp 0 61j
2c lk 0 61k 2f lm 0 61l 2h lm 0 61m 1t ji 0 66o px lv 0 66q px lv lc 66s px lv ld 66u px
lv n6 680 64o pl 0 681 64p pl 0 682 64q pl 0 683 64r pl 0 684 64s pl 0 685 64t pl 0 686
64u pl 0 687 64v pl 0 688 64o pl 0 689 64p pl 0 68a 64q pl 0 68b 64r pl 0 68c 64s pl 0
68d 64t pl 0 68e 64u pl 0 68f 64v pl 0 68g 65k pl 0 68h 65l pl 0 68i 65m pl 0 68j 65n pl
0 68k 65o pl 0 68l 65p pl 0 68m 65q pl 0 68n 65r pl 0 68o 65k pl 0 68p 65l pl 0 68q 65m
pl 0 68r 65n pl 0 68s 65o pl 0 68t 65p pl 0 68u 65q pl 0 68v 65r pl 0 68w 67c pl 0 68x
67d pl 0 68y 67e pl 0 68z 67f pl 0 690 67g pl 0 691 67h pl 0 692 67i pl 0 693 67j pl 0
694 67c pl 0 695 67d pl 0 696 67e pl 0 697 67f pl 0 698 67g pl 0 699 67h pl 0 69a 67i pl
0 69b 67j pl 0 69e 69m pl 0 69f pd pl 0 69g p2 pl 0 69i pd n6 0 69j pd n6 pl 69o pd pl 0
69u 6a2 pl 0 69v pj pl 0 69w p5 pl 0 69y pj n6 0 69z pj n6 pl 6a4 pj pl 0 6aa pl lk lc
6ab pl lk ld 6ae pl n6 0 6af pl lk n6 6aq px lk lc 6ar px lk ld 6as pt lv 0 6au px n6 0
6av px lk n6 6b6 6be pl 0 6b7 q1 pl 0 6b8 pb pl 0 6ba q1 n6 0 6bb q1 n6 pl 6bg q1 pl 0
1dkw 1y 1y 0 1dkx 1y 21 0 1dky 1y 24 0 1dkz 1y 1y 21 1dl0 1y 1y 24 1dl1 2b 2c 0 1dl2 2b
2c 0 1dlf 11g 11i 0 1dlg 11g 111 0 1dlh 11g 117 0 1dli 11q 11i 0 1dlj 11g 119 0"

/-- Characters whose lower case is one character. -/
def lowerRuns : Array CaseRun := (caseRuns <| base36Numbers 0 <| String.toList
  "1t q 1 2p 5c n 1 68 60 7 1 6w 74 o 2 75 8i 3 2 8j 8p 8 2 8q 96 n 2 97 ag 1 1 73 ah 3 2
ai ap 1 1 gj aq 2 2 ar au 1 1 gk av 1 1 aw ax 2 1 gm az 1 1 b0 b2 1 1 d9 b3 1 1 gp b4 1
1 gr b5 1 1 b6 b7 1 1 gw b8 1 1 gz ba 1 1 h5 bb 1 1 h4 bc 1 1 bd bg 1 1 hb bh 1 1 he bj
1 1 hh bk 3 2 bl bq 1 1 hs br 1 1 bs bt 1 1 hv bw 1 1 bx by 1 1 i0 bz 1 1 c0 c1 2 1 i2
c3 2 2 c4 c7 1 1 ia c8 1 1 c9 cc 1 1 cd ck 1 1 cm cl 1 1 cm cn 1 1 cp co 1 1 cp cq 1 1
cs cr 9 2 cs da 9 2 db dt 1 1 dv du 2 2 dv dy 1 1 b9 dz 1 1 cf e0 k 2 e1 f4 1 1 bi f6 9
2 f7 fu 1 1 8rp fv 1 1 fw fx 1 1 be fy 1 1 8rq g1 1 1 g2 g3 1 1 ao g4 1 1 i1 g5 1 1 i4
g6 5 2 g7 og 2 2 oh om 1 1 on ov 1 1 s3 p2 1 1 q4 p4 3 1 q5 p8 1 1 r0 pa 2 1 r1 pd h 1
q9 pv 9 1 qr r3 1 1 rb rc c 2 rd s4 1 1 qg s7 1 1 s8 s9 1 1 s2 sa 1 1 sb sd 3 1 or sg g
1 uo sw w 1 ts v4 h 2 v5 wa r 2 wb xs 1 1 y7 xt 7 2 xu y8 1c 2 y9 10x 12 1 129 3a8 12 1
8w0 3bb 1 1 8x3 3bh 1 1 8x9 3vk 28 1 xv4 3xs 6 1 3y0 5mx 1 1 5my 5n4 17 1 3bk 5od 3 1
3ct 5xc 23 2 5xd 61q 1 1 67 61s 1c 2 61t 64o 8 1 64g 654 6 1 64w 65k 8 1 65c 660 8 1 65s
66g 6 1 668 66x 4 2 66p 67c 8 1 674 688 8 1 680 68o 8 1 68g 694 8 1 68w 69k 2 1 69c 69m
2 1 67k 69o 1 1 69f 6a0 4 1 67m 6a4 1 1 69v 6ag 2 1 6a8 6ai 2 1 67q 6aw 2 1 6ao 6ay 2 1
67u 6b0 1 1 6at 6bc 2 1 67s 6be 2 1 67w 6bg 1 1 6b7 6jq 1 1 qx 6ju 1 1 2z 6jv 1 1 6d 6k2
1 1 6ku 6lc g 1 6ls 6mb 1 1 6mc 792 q 1 79s 8ow 1c 1 8q8 8rk 1 1 8rl 8rm 1 1 h7 8rn 1 1
5tp 8ro 1 1 hp 8rr 3 2 8rs 8rx 1 1 gh 8ry 1 1 hd 8rz 1 1 gg 8s0 1 1 gi 8s2 1 1 8s3 8s5 1
1 8s6 8se 2 1 fz 8sg 1e 2 8sh 8vf 2 2 8vg 8vm 1 1 8vn wu8 n 2 wu9 ww0 e 2 ww1 x0i 7 2
x0j x0y v 2 x0z x2x 2 2 x2y x31 1 1 5tl x32 5 2 x33 x3f 1 1 x3g x3h 1 1 h1 x3k 2 2 x3l
x3q a 2 x3r x4a 1 1 h2 x4b 1 1 gs x4c 1 1 gx x4d 1 1 h8 x4e 1 1 h6 x4g 1 1 im x4h 1 1 hz
x4i 1 1 il x4j 1 1 xub x4k 8 2 x4l x50 1 1 x3o x51 1 1 hu x52 1 1 5u6 x53 2 2 x54 x57 1
1 h0 x58 8 2 x59 x5o 1 1 bf x6d 1 1 x6e 1ee9 q 1 1ef5 1fcw 14 1 1fe0 1fhs 10 1 1fiw 1fn4
b 1 1fo7 1fng f 1 1foj 1fnw 7 1 1foz 1fo4 2 1 1fp7 1h1c 1f 1 1h34 1h74 m 1 1h80 1jfk w 1
1jgg 20cg w 1 20dc 20f4 p 1 20fv 2olc y 1 2oma").toArray

/-- Characters whose lower case is several characters. -/
def lowerExpansions : List (Nat × List Char) := caseExpansions <| base36Numbers 0 <| String.toList
  "8g 2x lj 0"

/-- The mapping of one character: an expansion if there is one, else the run that holds it, else
the character itself. -/
def mapCase (runs : Array CaseRun) (expansions : List (Nat × List Char)) (c : Char) : List Char :=
  match expansions.lookup c.toNat with
  | some cs => cs
  | none => [((runs.findSome? (·.map? c.toNat)).map Char.ofNat).getD c]

/-- The upper case of a character, one to three characters. -/
def upper (c : Char) : List Char :=
  if c.toNat < 128 then [c.toUpper] else mapCase upperRuns upperExpansions c

/-- The lower case of a character by itself, one or two characters. -/
def lower (c : Char) : List Char :=
  if c.toNat < 128 then [c.toLower] else mapCase lowerRuns lowerExpansions c

/-- Whether the first character that case mapping does not look through has case. -/
def startsCased (cs : List Char) : Bool :=
  ((cs.dropWhile isCaseIgnorable).head?.map isCased).getD false

/-- The lower case of `cs` in a text where `before`, nearest first, precedes it.  A capital sigma
that ends a word becomes the final form. -/
def lowerAfter (before : List Char) : List Char → List Char
  | [] => []
  | c :: rest =>
    let image :=
      if c = 'Σ' then [if startsCased before && !startsCased rest then 'ς' else 'σ'] else lower c
    image ++ lowerAfter (c :: before) rest

/-- The lower case of a text. -/
def lowerText (s : String) : String := String.ofList (lowerAfter [] s.toList)

end TypedClient.Text
