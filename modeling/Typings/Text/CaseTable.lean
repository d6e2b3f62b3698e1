import Typings.Text.RangeTable

namespace Typings

def capitalRuns : List (Nat × Nat × Nat × Int) := [
  (97,122,1,-32), (181,181,1,743), (224,246,1,-32), (248,254,1,-32), (255,255,1,121),
  (257,303,2,-1), (305,305,1,-232), (307,311,2,-1), (314,328,2,-1), (331,375,2,-1), (378,382,2,-1),
  (383,383,1,-300), (384,384,1,195), (387,389,2,-1), (392,392,1,-1), (396,396,1,-1), (402,402,1,-1),
  (405,405,1,97), (409,409,1,-1), (410,410,1,163), (411,411,1,42561), (414,414,1,130),
  (417,421,2,-1), (424,424,1,-1), (429,429,1,-1), (432,432,1,-1), (436,438,2,-1), (441,441,1,-1),
  (445,445,1,-1), (447,447,1,56), (453,453,1,-1), (454,454,1,-2), (456,456,1,-1), (457,457,1,-2),
  (459,459,1,-1), (460,460,1,-2), (462,476,2,-1), (477,477,1,-79), (479,495,2,-1), (498,498,1,-1),
  (499,499,1,-2), (501,501,1,-1), (505,543,2,-1), (547,563,2,-1), (572,572,1,-1), (575,576,1,10815),
  (578,578,1,-1), (583,591,2,-1), (592,592,1,10783), (593,593,1,10780), (594,594,1,10782),
  (595,595,1,-210), (596,596,1,-206), (598,599,1,-205), (601,601,1,-202), (603,603,1,-203),
  (604,604,1,42319), (608,608,1,-205), (609,609,1,42315), (611,611,1,-207), (612,612,1,42343),
  (613,613,1,42280), (614,614,1,42308), (616,616,1,-209), (617,617,1,-211), (618,618,1,42308),
  (619,619,1,10743), (620,620,1,42305), (623,623,1,-211), (625,625,1,10749), (626,626,1,-213),
  (629,629,1,-214), (637,637,1,10727), (640,640,1,-218), (642,642,1,42307), (643,643,1,-218),
  (647,647,1,42282), (648,648,1,-218), (649,649,1,-69), (650,651,1,-217), (652,652,1,-71),
  (658,658,1,-219), (669,669,1,42261), (670,670,1,42258), (837,837,1,84), (881,883,2,-1),
  (887,887,1,-1), (891,893,1,130), (940,940,1,-38), (941,943,1,-37), (945,961,1,-32),
  (962,962,1,-31), (963,971,1,-32), (972,972,1,-64), (973,974,1,-63), (976,976,1,-62),
  (977,977,1,-57), (981,981,1,-47), (982,982,1,-54), (983,983,1,-8), (985,1007,2,-1),
  (1008,1008,1,-86), (1009,1009,1,-80), (1010,1010,1,7), (1011,1011,1,-116), (1013,1013,1,-96),
  (1016,1016,1,-1), (1019,1019,1,-1), (1072,1103,1,-32), (1104,1119,1,-80), (1121,1153,2,-1),
  (1163,1215,2,-1), (1218,1230,2,-1), (1231,1231,1,-15), (1233,1327,2,-1), (1377,1414,1,-48),
  (4304,4346,1,3008), (4349,4351,1,3008), (5112,5117,1,-8), (7296,7296,1,-6254),
  (7297,7297,1,-6253), (7298,7298,1,-6244), (7299,7300,1,-6242), (7301,7301,1,-6243),
  (7302,7302,1,-6236), (7303,7303,1,-6181), (7304,7304,1,35266), (7306,7306,1,-1),
  (7545,7545,1,35332), (7549,7549,1,3814), (7566,7566,1,35384), (7681,7829,2,-1), (7835,7835,1,-59),
  (7841,7935,2,-1), (7936,7943,1,8), (7952,7957,1,8), (7968,7975,1,8), (7984,7991,1,8),
  (8000,8005,1,8), (8017,8023,2,8), (8032,8039,1,8), (8048,8049,1,74), (8050,8053,1,86),
  (8054,8055,1,100), (8056,8057,1,128), (8058,8059,1,112), (8060,8061,1,126), (8112,8113,1,8),
  (8126,8126,1,-7205), (8144,8145,1,8), (8160,8161,1,8), (8165,8165,1,7), (8526,8526,1,-28),
  (8560,8575,1,-16), (8580,8580,1,-1), (9424,9449,1,-26), (11312,11359,1,-48), (11361,11361,1,-1),
  (11365,11365,1,-10795), (11366,11366,1,-10792), (11368,11372,2,-1), (11379,11379,1,-1),
  (11382,11382,1,-1), (11393,11491,2,-1), (11500,11502,2,-1), (11507,11507,1,-1),
  (11520,11557,1,-7264), (11559,11559,1,-7264), (11565,11565,1,-7264), (42561,42605,2,-1),
  (42625,42651,2,-1), (42787,42799,2,-1), (42803,42863,2,-1), (42874,42876,2,-1),
  (42879,42887,2,-1), (42892,42892,1,-1), (42897,42899,2,-1), (42900,42900,1,48),
  (42903,42921,2,-1), (42933,42947,2,-1), (42952,42954,2,-1), (42957,42971,2,-1),
  (42998,42998,1,-1), (43859,43859,1,-928), (43888,43967,1,-38864), (65345,65370,1,-32),
  (66600,66639,1,-40), (66776,66811,1,-40), (66967,66977,1,-39), (66979,66993,1,-39),
  (66995,67001,1,-39), (67003,67004,1,-39), (68800,68850,1,-64), (68976,68997,1,-32),
  (71872,71903,1,-32), (93792,93823,1,-32), (93883,93907,1,-27), (125218,125251,1,-34)]

def capitalSequences : List (Nat × List Nat) := [
  (223,[83,83]), (329,[700,78]), (496,[74,780]), (912,[921,776,769]), (944,[933,776,769]),
  (1415,[1333,1362]), (7830,[72,817]), (7831,[84,776]), (7832,[87,778]), (7833,[89,778]),
  (7834,[65,702]), (8016,[933,787]), (8018,[933,787,768]), (8020,[933,787,769]),
  (8022,[933,787,834]), (8064,[7944,921]), (8065,[7945,921]), (8066,[7946,921]), (8067,[7947,921]),
  (8068,[7948,921]), (8069,[7949,921]), (8070,[7950,921]), (8071,[7951,921]), (8072,[7944,921]),
  (8073,[7945,921]), (8074,[7946,921]), (8075,[7947,921]), (8076,[7948,921]), (8077,[7949,921]),
  (8078,[7950,921]), (8079,[7951,921]), (8080,[7976,921]), (8081,[7977,921]), (8082,[7978,921]),
  (8083,[7979,921]), (8084,[7980,921]), (8085,[7981,921]), (8086,[7982,921]), (8087,[7983,921]),
  (8088,[7976,921]), (8089,[7977,921]), (8090,[7978,921]), (8091,[7979,921]), (8092,[7980,921]),
  (8093,[7981,921]), (8094,[7982,921]), (8095,[7983,921]), (8096,[8040,921]), (8097,[8041,921]),
  (8098,[8042,921]), (8099,[8043,921]), (8100,[8044,921]), (8101,[8045,921]), (8102,[8046,921]),
  (8103,[8047,921]), (8104,[8040,921]), (8105,[8041,921]), (8106,[8042,921]), (8107,[8043,921]),
  (8108,[8044,921]), (8109,[8045,921]), (8110,[8046,921]), (8111,[8047,921]), (8114,[8122,921]),
  (8115,[913,921]), (8116,[902,921]), (8118,[913,834]), (8119,[913,834,921]), (8124,[913,921]),
  (8130,[8138,921]), (8131,[919,921]), (8132,[905,921]), (8134,[919,834]), (8135,[919,834,921]),
  (8140,[919,921]), (8146,[921,776,768]), (8147,[921,776,769]), (8150,[921,834]),
  (8151,[921,776,834]), (8162,[933,776,768]), (8163,[933,776,769]), (8164,[929,787]),
  (8166,[933,834]), (8167,[933,776,834]), (8178,[8186,921]), (8179,[937,921]), (8180,[911,921]),
  (8182,[937,834]), (8183,[937,834,921]), (8188,[937,921]), (64256,[70,70]), (64257,[70,73]),
  (64258,[70,76]), (64259,[70,70,73]), (64260,[70,70,76]), (64261,[83,84]), (64262,[83,84]),
  (64275,[1348,1350]), (64276,[1348,1333]), (64277,[1348,1339]), (64278,[1358,1350]),
  (64279,[1348,1341])]

/-- Letters whose small letter is one character: exceptions, then the capitals turned round. -/
def smallRuns : List (Nat × Nat × Nat × Int) := [
  (452,452,1,2), (453,453,1,1), (455,455,1,2), (456,456,1,1), (458,458,1,2), (459,459,1,1),
  (497,497,1,2), (498,498,1,1), (921,921,1,32), (924,924,1,32), (931,931,1,32), (1012,1012,1,-60),
  (7838,7838,1,-7615), (8072,8079,1,-8), (8088,8095,1,-8), (8104,8111,1,-8), (8124,8124,1,-9),
  (8140,8140,1,-9), (8188,8188,1,-9), (8486,8486,1,-7517), (8490,8490,1,-8383), (8491,8491,1,-8262),
  (42570,42570,1,1)] ++
  capitalRuns.map fun (first, last, step, shift) =>
    ((first + shift).toNat, (last + shift).toNat, step, -shift)

def casedRanges : List (Nat × Nat) := rangesOfRuns 0 [
  65,26,6,26,47,1,10,1,4,1,5,23,1,31,1,195,1,4,4,208,2,35,7,2,30,5,96,1,42,4,2,2,2,4,1,1,6,1,1,3,1,
  1,1,20,1,83,1,139,8,166,1,38,9,41,2839,38,1,1,5,1,2,43,1,4,672,86,2,6,2178,11,5,43,2,3,64,192,64,
  278,2,6,2,38,2,6,2,8,1,1,1,1,1,1,1,31,2,53,1,7,1,1,3,3,1,7,3,4,2,6,4,13,5,3,1,7,116,1,13,1,16,13,
  101,1,4,1,2,10,1,1,3,5,6,1,1,1,1,1,1,4,1,6,4,1,2,4,5,5,4,1,17,32,3,2,817,52,1814,229,6,4,3,2,12,
  38,1,1,5,1,30994,46,18,30,132,102,3,4,1,77,20,6,1,3,821,43,1,14,6,80,20288,7,12,5,1033,26,6,26,
  1189,80,96,36,4,36,116,11,1,15,1,7,1,2,1,11,1,15,1,7,1,2,451,1,2,3,1,42,1,9,1221,51,13,51,93,22,
  10,22,2842,64,21856,64,32,25,2,25,25900,85,1,71,1,2,2,1,2,2,2,4,1,12,1,1,1,7,1,65,1,4,2,8,1,7,1,
  28,1,4,1,5,1,1,3,7,1,340,2,25,1,25,1,31,1,25,1,31,1,25,1,31,1,25,1,31,1,25,1,8,1844,10,1,20,6,6,
  261,62,2194,68,2028,26,6,26,6,26]

/-- Ranges of the characters that do not end a word: marks, modifiers, apostrophes and the like. -/
def caseIgnorableRanges : List (Nat × Nat) := rangesOfRuns 0 [
  39,1,6,1,11,1,35,1,1,1,71,1,4,1,1,1,4,1,2,2,503,192,4,2,4,1,9,2,1,1,251,7,207,1,5,1,49,45,1,1,1,2,
  1,2,1,1,44,1,11,6,10,11,1,1,35,1,10,21,16,1,101,8,1,10,1,4,33,1,1,1,30,27,91,11,58,11,4,1,2,1,24,
  24,43,3,44,1,7,2,5,9,41,58,55,1,1,1,4,8,4,1,3,7,10,2,13,1,15,1,58,1,4,4,8,1,20,2,26,1,2,2,57,1,4,
  2,4,2,2,3,3,1,30,2,3,1,11,2,57,1,4,5,1,2,4,1,20,2,22,6,1,1,58,1,2,1,1,4,8,1,7,2,11,2,30,1,61,1,12,
  1,50,1,3,1,55,1,1,3,5,3,1,4,7,2,11,2,29,1,58,1,2,1,6,1,5,2,20,2,28,2,57,2,4,4,8,1,20,2,29,1,72,1,
  7,3,1,1,90,1,2,7,11,9,98,1,2,9,9,1,1,7,73,2,27,1,1,1,1,1,55,14,1,5,1,2,5,11,1,36,9,1,102,4,1,6,1,
  2,2,2,25,2,4,3,16,4,13,1,2,2,6,1,15,1,94,1,608,3,946,3,29,2,30,2,30,2,64,2,1,7,8,1,2,11,3,1,5,1,
  45,5,51,1,65,2,34,1,118,3,4,2,9,1,6,3,219,2,2,1,58,1,1,7,1,1,1,1,2,8,6,10,2,1,39,1,8,46,2,12,20,4,
  48,1,1,5,1,1,5,1,40,9,12,2,32,4,2,2,1,3,56,1,1,2,3,1,1,3,58,8,2,2,64,6,82,3,1,13,1,7,4,1,6,1,3,2,
  50,63,13,1,34,101,445,1,1,3,11,3,13,3,13,3,13,2,12,5,8,2,10,1,2,1,2,5,49,5,1,10,1,1,13,1,16,13,51,
  33,2955,2,113,3,125,1,15,1,96,32,47,1,469,1,36,4,3,5,5,1,93,6,93,3,28438,1,1250,6,270,1,98,4,1,10,
  1,1,28,4,80,2,14,34,78,1,23,3,102,4,3,2,8,1,3,1,4,1,25,2,5,1,151,2,26,18,13,1,38,8,25,11,46,3,48,
  1,2,4,2,2,17,1,21,2,66,6,2,2,2,2,12,1,8,1,35,1,11,1,51,1,1,3,2,2,5,2,1,1,27,1,14,2,5,2,1,1,100,5,
  9,3,121,1,2,1,4,1,20272,1,147,17,573,16,3,1,12,16,34,1,2,1,169,1,7,1,6,1,11,1,35,1,1,1,47,1,45,2,
  67,1,21,3,513,1,226,1,149,5,1029,6,1,42,1,9,582,3,1,2,5,4,40,3,4,1,165,2,573,4,38,1,26,5,1,1,315,
  2,24,1,52,6,70,11,49,4,123,1,54,15,41,1,2,2,10,3,49,4,2,2,2,1,4,1,10,1,50,3,36,5,1,8,62,1,12,2,52,
  9,10,4,2,1,95,3,2,1,1,2,6,1,2,1,157,1,3,8,21,2,57,2,3,1,37,7,3,5,70,6,13,1,1,1,1,1,14,2,85,8,2,3,
  1,1,23,1,84,6,1,1,4,2,1,2,238,4,6,2,1,2,27,2,85,8,2,1,1,2,106,1,1,1,2,6,1,1,101,1,1,1,2,4,1,5,259,
  9,1,2,256,2,1,1,4,1,144,4,2,2,4,1,32,10,40,6,2,4,8,1,9,6,2,3,46,13,1,2,198,1,1,3,1,1,201,7,1,6,1,
  1,82,22,2,7,1,2,1,2,122,6,3,1,1,2,1,7,1,1,72,2,3,1,1,1,65,1,281,2,11,2,52,5,5,1,1,1,23,1,5333,17,
  6,15,11464,12,3,3,2496,5,59,7,9,4,508,3,40,2,482,1,63,17,64,2,1,2,13,2,16380,4,1,7,1,2,3230,2,1,4,
  4700,46,2,23,544,3,9,16,2,7,30,4,148,3,1979,55,4,50,8,1,14,1,22,5,1,15,1360,7,1,17,2,7,1,2,1,5,5,
  62,33,1,160,14,368,1,61,4,507,5,254,2,243,1,2,1,7,2,5,1,9,1,464,7,109,8,2735,5,789505,1,30,96,128,
  240]

end Typings
