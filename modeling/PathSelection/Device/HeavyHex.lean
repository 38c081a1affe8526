/-!
# Heavy-hexagon layouts

The couplers of two published devices, each pair once.
-/

namespace PathSelection

/-- The couplers of the device with 27 qubits. -/
def heavyHex27Pairs : List (Nat × Nat) := [
  (0, 1), (1, 2), (1, 4), (2, 3), (3, 5), (4, 7), (5, 8), (6, 7), (7, 10), (8, 9),
  (8, 11), (10, 12), (11, 14), (12, 13), (12, 15), (13, 14), (14, 16), (15, 18),
  (16, 19), (17, 18), (18, 21), (19, 20), (19, 22), (21, 23), (22, 25), (23, 24),
  (24, 25), (25, 26)]

/-- The couplers of the device with 127 qubits. -/
def heavyHex127Pairs : List (Nat × Nat) := [
  (0, 1), (1, 2), (2, 3), (3, 4), (4, 5), (5, 6), (6, 7), (7, 8), (0, 14), (14, 18),
  (18, 19), (19, 20), (20, 21), (21, 22), (4, 15), (15, 22), (22, 23), (23, 24),
  (24, 25), (25, 26), (8, 16), (16, 26), (26, 27), (27, 28), (28, 29), (29, 30),
  (30, 31), (31, 32), (9, 10), (10, 11), (11, 12), (12, 13), (12, 17), (17, 30),
  (32, 36), (36, 51), (20, 33), (33, 39), (24, 34), (34, 43), (28, 35), (35, 47),
  (37, 38), (38, 39), (39, 40), (40, 41), (41, 42), (42, 43), (43, 44), (44, 45),
  (45, 46), (46, 47), (47, 48), (48, 49), (49, 50), (50, 51), (37, 52), (52, 56),
  (41, 53), (53, 60), (45, 54), (54, 64), (49, 55), (55, 68), (56, 57), (57, 58),
  (58, 59), (59, 60), (60, 61), (61, 62), (62, 63), (63, 64), (64, 65), (65, 66),
  (66, 67), (67, 68), (68, 69), (69, 70), (70, 74), (74, 89), (58, 71), (71, 77),
  (62, 72), (72, 81), (66, 73), (73, 85), (75, 76), (76, 77), (77, 78), (78, 79),
  (79, 80), (80, 81), (81, 82), (82, 83), (83, 84), (84, 85), (85, 86), (86, 87),
  (87, 88), (88, 89), (75, 90), (90, 94), (79, 91), (91, 98), (83, 92), (92, 102),
  (87, 93), (93, 106), (94, 95), (95, 96), (96, 97), (97, 98), (98, 99), (99, 100),
  (100, 101), (101, 102), (102, 103), (103, 104), (104, 105), (105, 106), (106, 107),
  (107, 108), (108, 112), (112, 126), (96, 109), (100, 110), (110, 118), (104, 111),
  (111, 122), (113, 114), (114, 115), (115, 116), (116, 117), (117, 118), (118, 119),
  (119, 120), (120, 121), (121, 122), (122, 123), (123, 124), (124, 125), (125, 126)]

end PathSelection
