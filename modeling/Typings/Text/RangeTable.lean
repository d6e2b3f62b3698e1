namespace Typings

/--
The ranges of a class, first and last code point of each. `runs` tells how many code points from
`start` on are outside and inside of the class, by turns.
-/
def rangesOfRuns (start : Nat) (runs : List Nat) : List (Nat × Nat) :=
  match runs with
  | outside :: inside :: rest =>
    (start + outside, start + outside + inside - 1) :: rangesOfRuns (start + outside + inside) rest
  | _ => []

def inRanges (ranges : List (Nat × Nat)) (c : Char) : Bool :=
  ranges.any fun (first, last) => first ≤ c.toNat && c.toNat ≤ last

/-- Ranges of letters, marks, digits, connecting punctuation and joiners. -/
def wordRanges : List (Nat × Nat) := rangesOfRuns 0 [
  170,1,10,1,4,1,5,23,1,31,1,458,4,12,14,5,7,1,1,1,17,117,1,2,2,4,1,1,6,1,1,3,1,1,1,20,1,83,1,139,1,
  173,1,38,2,1,6,41,8,45,1,1,1,2,1,2,1,1,8,27,4,4,29,11,5,74,4,102,1,8,2,10,1,19,2,1,16,59,2,101,14,
  54,4,1,2,1,2,46,18,28,4,11,5,24,1,6,8,75,1,129,2,10,1,19,1,8,2,2,2,22,1,7,1,1,3,4,2,9,2,2,2,4,8,1,
  4,2,1,5,2,12,10,1,1,1,2,3,1,6,4,2,2,22,1,7,1,2,1,2,1,2,2,1,1,5,4,2,2,3,3,1,7,4,1,1,7,16,11,3,1,9,
  1,3,1,22,1,7,1,2,1,5,2,10,1,3,1,3,2,1,15,4,2,10,9,7,1,3,1,8,2,2,2,22,1,7,1,2,1,5,2,9,2,2,2,3,7,3,
  4,2,1,5,2,10,1,1,16,2,1,6,3,3,1,4,3,2,1,1,1,2,3,2,3,3,3,12,4,5,3,3,1,4,2,1,6,1,14,10,16,13,1,3,1,
  23,1,16,2,9,1,3,1,4,7,2,1,3,2,1,2,4,2,10,16,4,1,8,1,3,1,23,1,10,1,5,2,9,1,3,1,4,7,2,6,2,1,4,2,10,
  1,3,12,13,1,3,1,51,1,3,1,5,5,4,7,5,2,10,10,6,1,3,1,18,3,24,1,9,1,1,2,7,3,1,4,6,1,1,1,8,6,10,2,2,
  13,58,5,15,1,10,39,2,1,1,1,5,1,24,1,1,1,23,2,5,1,1,1,7,1,10,2,4,32,1,23,2,6,10,11,1,1,1,1,1,4,10,
  1,36,4,20,1,18,1,36,9,1,57,74,6,78,2,38,1,1,5,1,2,43,1,333,1,4,2,7,1,1,1,4,2,41,1,4,2,33,1,4,2,7,
  1,1,1,4,2,15,1,57,1,4,2,67,2,3,32,16,16,86,2,6,3,620,2,17,1,26,5,75,3,11,7,22,9,22,11,20,12,13,1,
  3,1,2,12,84,3,1,4,2,2,10,33,3,1,11,6,89,7,43,5,70,10,31,1,12,4,12,10,40,2,5,11,44,4,26,6,10,38,28,
  4,63,1,29,2,11,6,10,13,1,8,31,49,77,3,10,17,9,12,116,12,56,8,10,3,49,2,11,5,43,2,3,16,3,1,39,5,
  534,2,6,2,38,2,6,2,8,1,1,1,1,1,1,1,31,2,53,1,7,1,1,3,3,1,7,3,4,2,6,4,13,5,3,1,7,15,2,49,2,19,1,28,
  1,13,1,16,13,51,33,17,1,4,1,2,10,1,1,3,5,6,1,1,1,1,1,1,4,1,11,2,4,5,5,4,1,17,41,813,52,1814,229,6,
  9,12,38,1,1,5,1,2,56,7,1,15,24,9,7,1,7,1,7,1,7,1,7,1,7,1,7,1,7,1,32,47,1,469,3,25,15,1,5,2,5,4,86,
  2,2,2,3,1,90,1,4,5,43,1,94,17,32,48,16,512,6592,64,22157,67,46,2,269,3,28,20,51,1,10,1,115,37,9,2,
  103,2,67,2,2,1,1,1,8,21,54,4,1,19,52,12,70,10,10,6,24,3,1,1,49,2,36,12,29,3,65,14,11,6,31,1,55,9,
  14,2,10,6,23,3,73,24,3,2,16,2,5,10,6,2,6,2,6,9,7,1,7,1,43,1,14,6,123,1,2,2,10,6,11172,12,23,4,49,
  8452,366,2,106,38,7,12,5,5,12,1,13,1,5,1,1,1,2,1,2,1,108,33,363,18,64,2,54,40,12,4,16,16,16,3,2,
  24,3,32,5,1,135,19,10,7,26,4,1,1,26,11,89,3,6,2,6,2,6,2,3,35,12,1,26,1,19,1,2,1,15,2,14,34,123,69,
  53,136,1,130,29,3,49,15,1,31,32,13,30,5,43,5,30,2,36,4,8,1,5,42,158,2,10,6,36,4,36,4,40,8,52,12,
  11,1,15,1,7,1,2,1,11,1,15,1,7,1,2,3,52,12,311,9,22,10,8,24,6,1,42,1,9,69,6,2,1,1,44,1,2,3,1,2,23,
  10,23,9,31,65,19,1,2,10,22,10,26,70,56,6,2,64,4,1,2,5,8,1,3,1,29,2,3,4,1,32,29,3,29,35,8,1,30,25,
  54,10,22,10,19,13,18,110,73,55,51,13,51,13,40,8,10,6,38,3,5,1,23,250,42,1,2,3,2,16,3,55,33,10,1,8,
  33,31,22,42,21,27,23,9,71,31,16,9,60,7,1,13,25,7,10,6,53,1,10,4,4,8,36,2,1,9,69,4,4,1,13,1,1,35,
  18,1,37,6,4,62,7,1,1,1,4,1,15,1,10,7,59,5,10,6,4,1,8,2,2,2,22,1,7,1,2,1,5,1,10,2,2,2,3,2,1,6,1,5,
  7,2,7,3,5,11,10,1,1,2,1,1,38,1,10,1,1,2,1,1,4,1,8,13,2,29,75,5,10,4,4,30,70,1,1,8,10,166,54,2,9,
  23,6,34,65,3,1,11,10,38,57,7,10,6,20,28,27,2,15,4,10,6,7,185,59,101,74,21,8,2,1,2,8,1,2,1,30,1,2,
  2,9,12,10,70,8,2,46,2,8,1,2,27,63,8,1,8,74,3,1,18,73,199,33,15,10,6,9,1,45,1,9,15,10,24,30,2,22,1,
  14,73,7,1,2,1,44,3,1,1,2,1,9,8,10,6,6,1,2,1,37,1,2,1,6,7,10,310,23,9,17,1,41,3,5,13,11,85,1,79,
  922,102,111,17,196,2636,97,15,1072,16,22,10,3995,5,583,6841,58,1734,569,7,31,1,10,6,79,1,10,6,30,
  2,5,11,55,9,4,12,10,9,21,5,19,432,45,3,10,198,64,128,75,4,57,7,17,64,2,1,2,11,2,14,6136,8,1238,41,
  10,8935,4,1,7,1,2,1,291,15,1,29,3,2,1,14,4,8,396,2308,107,5,13,3,9,7,10,3,2,4177,10,518,46,2,23,
  542,5,3,6,8,8,2,7,30,4,148,3,443,85,1,71,1,2,2,1,2,2,2,4,1,12,1,1,1,7,1,65,1,4,2,8,1,7,1,28,1,4,1,
  5,1,1,3,7,1,340,2,25,1,25,1,31,1,25,1,31,1,25,1,31,1,25,1,31,1,25,1,8,2,50,512,55,4,50,8,1,14,1,
  22,5,1,15,1104,31,6,6,213,7,1,17,2,7,1,2,1,5,5,62,33,1,112,45,3,14,2,10,4,1,321,31,17,58,470,42,
  214,43,485,7,1,4,1,2,1,15,1,197,11,7,41,76,4,10,1190,4,1,27,1,2,1,1,2,1,1,10,1,4,1,1,1,1,6,1,4,1,
  1,1,1,1,1,3,1,2,1,1,2,1,1,1,1,1,1,1,1,1,1,2,1,1,2,4,1,7,1,4,1,4,1,1,1,10,1,17,5,3,1,5,1,17,628,26,
  6,26,6,26,2662,10,1030,42720,32,4154,6,222,2,5762,14,7473,15,622,2466,542,1506,4939,5,4192,712016,
  240]

def digitRanges : List (Nat × Nat) := rangesOfRuns 0 [
  1632,10,134,10,198,10,412,10,118,10,118,10,118,10,118,10,118,10,118,10,118,10,118,10,118,10,96,10,
  118,10,70,10,278,10,70,10,1862,10,38,10,300,10,128,10,166,10,6,10,182,10,86,10,134,10,6,10,35270,
  10,678,10,38,10,198,10,22,10,86,10,406,10,21270,10,1414,10,2182,10,6,10,796,10,128,10,60,10,144,
  10,278,10,342,10,118,10,374,10,102,10,6,20,76,10,422,10,102,10,662,10,86,10,246,10,70,10,422,10,
  16854,10,2342,10,86,10,134,10,534,10,24438,10,2772,50,2368,10,422,10,502,10,247,10,853,10,4758,10]

/-- Ranges of controls, separators, fillers, unassigned code points and marks that join the one before. -/
def invisibleRanges : List (Nat × Nat) := rangesOfRuns 0 [
  128,33,12,1,594,112,8,2,6,4,7,1,1,1,20,1,224,7,166,1,38,2,50,2,3,46,1,1,1,2,1,2,1,9,27,4,6,17,10,
  11,1,1,46,21,16,1,101,8,1,6,2,2,1,4,32,2,1,1,30,29,89,11,1,14,43,9,7,3,24,4,1,9,1,3,1,7,15,1,25,5,
  1,1,11,5,32,16,42,57,55,1,1,1,4,8,4,1,3,7,10,2,29,1,2,1,8,2,2,2,22,1,7,1,1,3,4,3,1,1,2,6,2,2,2,1,
  1,13,2,1,3,4,24,5,1,1,6,4,2,2,22,1,7,1,2,1,2,1,2,4,3,24,4,1,1,7,10,2,3,1,1,12,1,1,9,1,3,1,22,1,7,
  1,2,1,5,3,4,8,1,1,2,3,1,15,2,4,12,7,1,8,2,1,8,2,2,2,22,1,7,1,2,1,5,3,1,2,1,6,2,2,2,15,2,1,3,4,18,
  11,1,1,6,3,3,1,4,3,2,1,1,1,2,3,2,3,3,3,12,5,1,1,2,3,3,1,3,3,1,21,21,6,3,1,8,1,3,1,23,1,16,3,1,3,4,
  19,3,1,2,2,2,4,10,7,10,1,11,1,3,1,23,1,10,1,5,3,2,2,1,1,2,23,3,1,2,4,10,1,3,14,11,1,3,1,41,2,1,1,
  2,5,3,1,3,1,2,4,3,1,10,4,26,2,2,1,18,3,24,1,9,1,1,2,7,9,2,6,7,7,10,2,3,12,48,1,2,11,8,8,13,37,2,1,
  1,1,5,1,24,1,1,1,10,1,2,9,1,2,5,1,1,9,10,2,4,32,24,2,27,1,1,1,1,1,14,1,36,18,1,5,1,2,5,49,8,1,6,1,
  13,37,45,4,1,6,1,2,2,2,25,2,4,3,16,4,13,1,2,2,6,1,15,1,40,1,1,5,1,2,143,2,232,1,4,2,7,1,1,1,4,2,
  41,1,4,2,33,1,4,2,7,1,1,1,4,2,15,1,57,1,4,2,67,5,29,3,26,6,86,2,6,2,640,1,28,3,89,7,18,13,19,3,2,
  9,18,14,13,1,3,15,52,2,1,7,8,1,2,11,9,3,10,6,10,6,11,5,10,6,89,7,5,2,34,1,1,5,70,10,31,4,4,2,3,4,
  2,1,6,7,1,3,42,2,5,11,44,4,26,6,11,3,57,2,2,3,56,1,1,9,1,1,2,8,6,13,10,6,10,6,14,86,48,10,4,3,8,1,
  29,9,12,2,32,4,2,6,56,1,1,2,3,1,1,13,48,8,2,5,15,3,62,5,43,2,11,11,1,13,1,7,4,1,6,1,3,2,1,5,192,
  64,278,2,6,2,38,2,6,2,8,1,1,1,1,1,1,1,31,2,53,1,15,1,14,2,6,1,19,2,3,1,9,17,24,8,47,17,2,2,27,1,
  13,3,34,62,140,4,666,22,11,21,1812,2,377,3,2,5,45,1,1,5,1,2,56,7,2,15,23,9,7,1,7,1,7,1,7,1,7,1,7,
  1,7,1,7,33,94,34,26,1,89,12,214,26,16,1,41,6,16,1,86,4,101,5,43,1,51,1,42,1,86,9,48,1,29293,3,55,
  9,348,20,47,4,1,10,32,2,80,2,6,8,221,20,17,1,3,1,4,1,25,2,5,4,10,6,56,8,68,10,12,24,13,1,38,8,25,
  11,1,12,30,6,48,1,2,4,2,2,2,1,13,1,11,4,7,1,25,1,41,6,2,2,2,11,3,1,8,1,1,2,10,2,32,1,51,1,1,3,2,2,
  5,2,1,1,1,24,17,2,8,11,6,2,6,2,6,9,7,1,7,1,60,4,117,1,2,1,4,3,10,6,11172,12,23,4,49,8452,366,2,
  106,38,7,12,5,5,1,1,24,1,5,1,1,1,2,1,2,1,650,32,16,16,10,22,35,1,19,1,4,4,5,1,135,4,157,3,30,3,6,
  2,6,2,6,2,3,3,7,1,7,13,2,2,12,1,26,1,19,1,2,1,15,2,14,34,123,5,3,4,45,3,88,1,13,3,1,47,45,131,29,
  3,49,16,27,4,36,9,30,5,38,10,30,1,37,4,14,42,158,2,10,6,36,4,36,4,40,8,52,11,12,1,15,1,7,1,2,1,11,
  1,15,1,7,1,2,3,52,12,311,9,22,10,8,24,6,1,42,1,9,69,6,2,1,1,44,1,2,3,1,2,23,1,72,8,9,48,19,1,2,5,
  33,3,27,5,27,38,56,4,20,2,47,15,4,1,3,1,29,10,9,7,9,7,64,32,37,6,12,9,54,3,29,2,27,5,26,7,4,12,7,
  80,73,55,51,13,51,7,42,12,10,6,38,8,24,8,2,208,31,1,42,3,1,2,2,16,6,8,9,39,40,8,22,11,9,22,18,4,4,
  38,28,20,23,9,1,1,54,15,7,4,30,1,2,2,1,12,49,4,2,2,2,1,4,14,25,7,10,9,36,5,1,9,18,8,35,1,3,11,52,
  9,1,1,8,4,2,1,16,1,20,11,18,1,28,3,2,4,6,1,2,63,7,1,1,1,4,1,15,1,11,6,47,1,3,13,10,8,2,1,8,2,2,2,
  22,1,7,1,2,1,5,3,1,1,1,1,4,2,2,2,2,3,1,12,7,28,10,1,1,2,1,1,38,1,1,1,2,15,1,1,2,3,1,1,3,1,2,39,56,
  8,2,3,1,1,21,1,1,1,3,30,48,1,2,6,1,1,2,1,1,2,1,2,4,8,10,166,47,1,2,6,4,2,1,2,27,36,51,8,2,1,1,2,4,
  11,10,6,13,19,43,1,1,1,2,8,2,6,10,6,20,28,27,3,1,1,2,4,1,9,23,185,47,9,1,2,1,100,83,12,8,2,1,2,8,
  1,2,1,24,1,5,1,2,6,4,1,3,9,10,70,8,2,42,8,4,1,4,27,1,10,40,6,2,4,8,9,1,6,2,3,46,13,1,2,9,13,73,7,
  10,87,1,3,1,1,1,88,34,14,10,6,9,1,38,14,1,1,6,10,29,3,32,25,1,7,1,2,1,75,7,1,2,1,38,21,1,9,10,6,6,
  1,2,1,37,4,2,1,1,1,1,7,10,6,44,4,10,246,19,2,4,9,15,1,36,8,2,3,23,86,1,15,50,13,923,102,111,1,5,
  11,196,2636,99,13,1072,17,6,25,3995,5,583,6841,30,12,3,3,10,1734,569,7,31,1,10,4,81,1,10,6,30,7,1,
  10,48,7,15,10,10,1,7,1,21,5,19,432,58,198,91,5,25,2,25,44,75,5,56,11,13,64,4,14,5,9,7382,41,32,97,
  115,8701,4,1,7,1,2,1,291,15,1,29,3,2,1,14,4,8,396,2308,107,5,13,3,9,7,10,2,1,2,1,3936,253,3,436,6,
  23,15,17,95,116,60,246,10,39,2,60,5,3,22,2,7,30,4,61,21,66,3,1,122,20,12,20,12,87,9,25,135,85,1,
  71,1,2,2,1,2,2,2,4,1,12,1,1,1,7,1,65,1,4,2,8,1,7,1,28,1,4,1,5,1,1,3,7,1,340,2,292,2,562,55,4,50,8,
  1,14,1,7,1140,31,6,6,261,62,146,45,10,7,2,10,4,2,320,30,18,44,4,10,5,1,464,28,4,10,214,30,2,11,4,
  1,192,31,1,3,1,2,1,7,2,5,9,2,224,7,1,4,1,2,1,15,1,197,2,9,48,68,7,1,4,10,4,2,785,68,76,61,194,4,1,
  27,1,2,1,1,2,1,1,10,1,4,1,1,1,1,6,1,4,1,1,1,1,1,1,3,1,2,1,1,2,1,1,1,1,1,1,1,1,1,1,2,1,1,2,4,1,7,1,
  4,1,4,1,1,1,10,1,17,5,3,1,5,1,17,52,2,270,44,4,100,12,15,2,15,1,15,1,37,10,174,56,29,13,44,4,9,7,
  2,14,6,154,985,3,17,3,13,3,218,6,12,4,1,15,12,4,56,8,10,6,40,8,30,2,12,4,2,14,9,39,344,8,14,2,13,
  3,11,3,57,1,1,4,16,2,12,4,10,7,147,1,103,1029,42720,32,4382,2,5774,2,7473,15,622,2466,542,1506,
  4939,5,8490,904070]

end Typings
